import Mathlib.Data.List.Count
import Mathlib.Logic.Function.Basic
import Oxool.Lib.Erasing
import Oxool.Lib.Fair

/-!
# Socket polls (`net/Socket.hpp`, `net/Socket.cpp`)

A `SocketPoll` is a thread with the sockets that it owns. Other threads hand it sockets and callbacks
under its lock and write into its pipe when there was nothing to be taken; a call of `poll` empties
the pipe, takes what is there under the lock, runs the callbacks and then goes over the sockets that
it had when it began. What is to become of a socket is its disposition: it stays, it is closed, it is
moved by a closure, or it is transferred, which is a callback of the other poll that inserts it there.
The sockets that are gone are erased at the end, by their positions.

The steps of a call are actions of their own, so that a run is any interleaving of any number of
polls. `capacity` is how many bytes the pipe can hold, `fd` the descriptor of a socket. What the
closure of a move does with the socket is an action of its own. `added`, `invoked` and `due`, and the
positions that were `visited`, are records the code does not keep.
-/

set_option autoImplicit false

namespace Oxool.Net.Polling

/-! ## The polls -/

/-- A callback; that of a transfer inserts a socket. -/
structure Callback where
  id : Nat
  socket : Option Nat
deriving DecidableEq

/-- Where the thread is in `poll`. -/
inductive Position where
  | loop
  /-- `ppoll` has returned, with the pipe among the descriptors or not. -/
  | polled (pollFds : List Int) (pipe : Bool)
  /-- The pipe has been read. -/
  | drained (pollFds : List Int)
  | invoking (pollFds : List Int) (invoke : List Callback)
  | handling (pollFds : List Int) (i j : Nat) (toErase visited : List Nat)
  /-- `removeSockets`, after which the thread ends. -/
  | finished
deriving DecidableEq

structure SocketPoll where
  pollSockets : List Nat
  pollStartIndex : Nat
  newSockets : List Nat
  newCallbacks : List Callback
  wakeup : Nat
  position : Position
  added : List Callback
  invoked : List Callback
  due : Nat

namespace SocketPoll

def new : SocketPoll where
  pollSockets := []
  pollStartIndex := 0
  newSockets := []
  newCallbacks := []
  wakeup := 0
  position := .loop
  added := []
  invoked := []
  due := 0

variable (capacity : Nat) (fd : Nat → Int) (p : SocketPoll)

/-- The callbacks that were taken and not run. -/
def taken : List Callback :=
  match p.position with
  | .invoking _ invoke => invoke
  | _ => []

/-- The positions that will be erased. -/
def toErase : List Nat :=
  match p.position with
  | .handling _ _ _ toErase _ => toErase
  | _ => []

/-- `wakeup`: a byte, unless the pipe is full. -/
def wake : SocketPoll := { p with wakeup := min (p.wakeup + 1) capacity }

/-- There is nothing to be taken. -/
def wasEmpty : Bool := p.newSockets.isEmpty && p.newCallbacks.isEmpty

def insertNewSocket (socket : Nat) : SocketPoll :=
  let q := { p with newSockets := p.newSockets ++ [socket] }
  if p.wasEmpty then q.wake capacity else q

def addCallback (callback : Callback) : SocketPoll :=
  let q := { p with
    newCallbacks := p.newCallbacks ++ [callback]
    added := p.added ++ [callback] }
  if p.wasEmpty then q.wake capacity else q

/-- `setupPollFds`, and `ppoll` returns. -/
def setupPollFds : SocketPoll :=
  match p.position with
  | .loop => { p with
      position := .polled (p.pollSockets.map fd) (decide (0 < p.wakeup))
      due := p.added.length }
  | _ => p

/-- The pipe is read, 32 integers at most. -/
def readPipe : SocketPoll :=
  match p.position with
  | .polled pollFds true => { p with wakeup := p.wakeup - 128, position := .drained pollFds }
  | .polled pollFds false => { p with position := .invoking pollFds [] }
  | _ => p

/-- What is new is taken, under the lock. -/
def take : SocketPoll :=
  match p.position with
  | .drained pollFds => { p with
      pollSockets := p.pollSockets ++ p.newSockets
      newSockets := []
      newCallbacks := []
      position := .invoking pollFds p.newCallbacks }
  | _ => p

/-- The first callback is run, or the loop over the sockets begins. -/
def invoke : SocketPoll :=
  match p.position with
  | .invoking pollFds (callback :: rest) =>
    let q := { p with
      position := .invoking pollFds rest
      invoked := p.invoked ++ [callback] }
    match callback.socket with
    | some socket => q.insertNewSocket capacity socket
    | none => q
  | .invoking pollFds [] =>
    let size := pollFds.length
    if 0 < size then
      let start := if p.pollStartIndex + 1 > size - 1 then 0 else p.pollStartIndex + 1
      { p with pollStartIndex := start, position := .handling pollFds start 0 [] [] }
    else { p with position := .loop }
  | _ => p

/-- The socket that the loop is at, where it is the one that was polled. -/
def current : Option Nat :=
  match p.position with
  | .handling pollFds i j _ _ =>
    if j < pollFds.length then
      p.pollSockets[i]?.filter fun socket => decide (pollFds[i]? = some (fd socket))
    else none
  | _ => none

/-- The loop goes on, over the socket it is at, which stays or not. -/
def next (handled stays : Bool) : SocketPoll :=
  match p.position with
  | .handling pollFds i j toErase visited =>
    if j < pollFds.length then
      { p with
        position := .handling pollFds (if i = 0 then pollFds.length - 1 else i - 1) (j + 1)
          (if stays then toErase else toErase ++ [i])
          (if handled then visited ++ [i] else visited) }
    else p
  | _ => p

/-- The end of the loop: what is to be erased is erased from the back. -/
def erase : SocketPoll :=
  match p.position with
  | .handling pollFds _ j toErase _ =>
    if j < pollFds.length then p
    else { p with
      pollSockets := eraseAll (toErase.insertionSort (· ≥ ·)) p.pollSockets
      position := .loop }
  | _ => p

def removeSockets : SocketPoll :=
  match p.position with
  | .loop => { p with pollSockets := [], newSockets := [], position := .finished }
  | _ => p

end SocketPoll

/-! ## Any number of polls -/

/-- What `handlePoll` asks for. -/
inductive Disposition where
  | keep
  | closed
  | move
  | transfer (poll : Nat)
deriving DecidableEq

/-- The polls, how many sockets and callbacks there have been, the sockets that closures hold and
those that are closed. -/
structure World where
  polls : Nat → SocketPoll
  sockets : Nat
  callbacks : Nat
  moving : List Nat
  gone : List Nat

namespace World

def init : World where
  polls _ := .new
  sockets := 0
  callbacks := 0
  moving := []
  gone := []

variable (capacity : Nat) (fd : Nat → Int) (w : World)

def setPoll (n : Nat) (p : SocketPoll) : World := { w with polls := Function.update w.polls n p }

/-- Any thread inserts a socket that it has just made. -/
def insertNewSocket (n : Nat) : World :=
  { w.setPoll n ((w.polls n).insertNewSocket capacity w.sockets) with sockets := w.sockets + 1 }

/-- Any thread adds a callback; that of a transfer carries the socket. -/
def addCallback (n : Nat) (socket : Option Nat) : World :=
  { w.setPoll n ((w.polls n).addCallback capacity ⟨w.callbacks, socket⟩) with
    callbacks := w.callbacks + 1 }

/-- `handlePoll` of the socket that the loop is at, and `SocketDisposition::execute`. -/
def handle (n : Nat) (disposition : Disposition) : World :=
  let p := w.polls n
  match p.current fd with
  | none => w.setPoll n (p.next false true)
  | some socket =>
    match disposition with
    | .keep => w.setPoll n (p.next true true)
    | .closed => { w.setPoll n (p.next true false) with gone := w.gone ++ [socket] }
    | .move => { w.setPoll n (p.next true false) with moving := w.moving ++ [socket] }
    | .transfer m => (w.setPoll n (p.next true false)).addCallback capacity m (some socket)

/-- The closure of a move inserts its socket into a poll. -/
def place (n socket : Nat) : World :=
  if socket ∈ w.moving then
    { w.setPoll n ((w.polls n).insertNewSocket capacity socket) with
      moving := w.moving.erase socket }
  else w

/-- The closure of a move lets its socket go. -/
def drop (socket : Nat) : World :=
  if socket ∈ w.moving then
    { w with moving := w.moving.erase socket, gone := w.gone ++ [socket] }
  else w

def removeSockets (n : Nat) : World :=
  let p := w.polls n
  match p.position with
  | .loop => { w.setPoll n p.removeSockets with
      gone := w.gone ++ (p.pollSockets ++ p.newSockets) }
  | _ => w

end World

inductive Action where
  | insertNewSocket (n : Nat)
  | addCallback (n : Nat)
  | wakeup (n : Nat)
  | setupPollFds (n : Nat)
  | readPipe (n : Nat)
  | take (n : Nat)
  | invoke (n : Nat)
  | handle (n : Nat) (disposition : Disposition)
  | erase (n : Nat)
  | place (n socket : Nat)
  | drop (socket : Nat)
  | removeSockets (n : Nat)

def act (capacity : Nat) (fd : Nat → Int) (w : World) : Action → World
  | .insertNewSocket n => w.insertNewSocket capacity n
  | .addCallback n => w.addCallback capacity n none
  | .wakeup n => w.setPoll n ((w.polls n).wake capacity)
  | .setupPollFds n => w.setPoll n ((w.polls n).setupPollFds fd)
  | .readPipe n => w.setPoll n (w.polls n).readPipe
  | .take n => w.setPoll n (w.polls n).take
  | .invoke n => w.setPoll n ((w.polls n).invoke capacity)
  | .handle n disposition => w.handle capacity fd n disposition
  | .erase n => w.setPoll n (w.polls n).erase
  | .place n socket => w.place capacity n socket
  | .drop socket => w.drop socket
  | .removeSockets n => w.removeSockets n

/-! ## Callbacks -/

namespace SocketPoll

variable {capacity : Nat} {fd : Nat → Int} {p : SocketPoll}

/-- The callbacks that had been added when the last call began have been run by the time the loop
over the sockets begins. -/
def Prompt (p : SocketPoll) : Prop :=
  match p.position with
  | .polled _ true => p.due ≤ p.added.length
  | .drained _ => p.due ≤ p.added.length
  | .invoking _ invoke => p.due ≤ p.invoked.length + invoke.length
  | _ => p.due ≤ p.invoked.length

/-- Every callback is run once, in the order in which they were added, and by the end of the first
call that begins after it was added; what waits to be taken has a byte in the pipe. -/
structure RunsCallbacks (p : SocketPoll) : Prop where
  order : p.added = p.invoked ++ p.taken ++ p.newCallbacks
  awake : p.wasEmpty = false → 0 < p.wakeup ∨ ∃ pollFds, p.position = .drained pollFds
  prompt : p.Prompt

theorem RunsCallbacks.new : RunsCallbacks .new := ⟨rfl, nofun, Nat.le_refl 0⟩

theorem length_added (h : p.RunsCallbacks) :
    p.added.length = p.invoked.length + p.taken.length + p.newCallbacks.length := by
  rw [h.order, List.length_append, List.length_append]

theorem RunsCallbacks.wake (hcapacity : 0 < capacity) (h : p.RunsCallbacks) :
    (p.wake capacity).RunsCallbacks where
  order := h.order
  awake _ := .inl (Nat.lt_min.mpr ⟨Nat.succ_pos _, hcapacity⟩)
  prompt := h.prompt

/-- More callbacks that have been added make no difference. -/
theorem Prompt.mono {q : SocketPoll} (h : p.Prompt) (hposition : q.position = p.position)
    (hdue : q.due = p.due) (hinvoked : q.invoked = p.invoked)
    (hadded : p.added.length ≤ q.added.length) : q.Prompt := by
  unfold Prompt at h ⊢
  rw [hposition, hdue, hinvoked]
  split
  · next hp => rw [hp] at h; exact Nat.le_trans h hadded
  · next hp => rw [hp] at h; exact Nat.le_trans h hadded
  · next hp => rw [hp] at h; exact h
  · next htrue hdrained hinvoking =>
    split at h
    · next hp => exact absurd hp (htrue _)
    · next hp => exact absurd hp (hdrained _)
    · next hp => exact absurd hp (hinvoking _ _)
    · exact h

/-- What is put where there was something already finds the byte that is there. -/
theorem RunsCallbacks.put (hcapacity : 0 < capacity) (h : p.RunsCallbacks) {q : SocketPoll}
    (horder : q.added = q.invoked ++ q.taken ++ q.newCallbacks) (hwakeup : q.wakeup = p.wakeup)
    (hposition : q.position = p.position) (hprompt : q.Prompt) :
    (if p.wasEmpty then q.wake capacity else q).RunsCallbacks := by
  cases hempty : p.wasEmpty with
  | true =>
    exact ⟨horder, fun _ => .inl (Nat.lt_min.mpr ⟨Nat.succ_pos _, hcapacity⟩), hprompt⟩
  | false =>
    have hawake := h.awake hempty
    rw [← hwakeup, ← hposition] at hawake
    exact ⟨horder, fun _ => hawake, hprompt⟩

theorem RunsCallbacks.insertNewSocket (hcapacity : 0 < capacity) (h : p.RunsCallbacks)
    (socket : Nat) : (p.insertNewSocket capacity socket).RunsCallbacks :=
  h.put hcapacity h.order rfl rfl h.prompt

theorem RunsCallbacks.addCallback (hcapacity : 0 < capacity) (h : p.RunsCallbacks)
    (callback : Callback) : (p.addCallback capacity callback).RunsCallbacks := by
  have horder : p.added ++ [callback] =
      p.invoked ++ p.taken ++ (p.newCallbacks ++ [callback]) := by
    rw [h.order, List.append_assoc]
  exact h.put hcapacity horder rfl rfl (h.prompt.mono rfl rfl rfl (by simp))

/-- Without a byte in the pipe there is nothing to be taken, but while it is being taken. -/
theorem RunsCallbacks.newCallbacks_eq_nil (h : p.RunsCallbacks) (hwakeup : p.wakeup = 0)
    (hposition : ∀ pollFds, p.position ≠ .drained pollFds) : p.newCallbacks = [] := by
  cases hempty : p.wasEmpty with
  | true =>
    rw [wasEmpty, Bool.and_eq_true, List.isEmpty_iff, List.isEmpty_iff] at hempty
    exact hempty.2
  | false =>
    rcases h.awake hempty with hpos | ⟨pollFds, hdrained⟩
    · rw [hwakeup] at hpos
      exact absurd hpos (Nat.lt_irrefl 0)
    · exact absurd hdrained (hposition pollFds)

/-- The pipe still has its byte, after a step that does not read it. -/
theorem RunsCallbacks.awake_of (h : p.RunsCallbacks)
    (hposition : ∀ pollFds, p.position ≠ .drained pollFds) (hempty : p.wasEmpty = false) :
    0 < p.wakeup := by
  rcases h.awake hempty with hpos | ⟨pollFds, hdrained⟩
  · exact hpos
  · exact absurd hdrained (hposition pollFds)

theorem RunsCallbacks.setupPollFds (h : p.RunsCallbacks) :
    (p.setupPollFds fd).RunsCallbacks := by
  unfold SocketPoll.setupPollFds
  split
  · next hposition =>
    have hnot : ∀ pollFds, p.position ≠ .drained pollFds := by simp [hposition]
    have horder := h.order
    have hlength := length_added h
    simp only [taken, hposition, List.append_nil, List.length_nil, Nat.add_zero] at horder hlength
    refine ⟨by simpa only [taken, List.append_nil] using horder,
      fun hempty => .inl (h.awake_of hnot hempty), ?_⟩
    rcases Nat.eq_zero_or_pos p.wakeup with hzero | hpos
    · rw [h.newCallbacks_eq_nil hzero hnot, List.length_nil, Nat.add_zero] at hlength
      simp [Prompt, hzero, hlength]
    · simp [Prompt, hpos]
  · exact h

theorem RunsCallbacks.readPipe (h : p.RunsCallbacks) : p.readPipe.RunsCallbacks := by
  have hprompt := h.prompt
  have horder := h.order
  unfold SocketPoll.readPipe
  split
  · next pollFds hposition =>
    simp only [Prompt, taken, hposition] at hprompt horder
    exact ⟨horder, fun _ => .inr ⟨pollFds, rfl⟩, hprompt⟩
  · next pollFds hposition =>
    simp only [Prompt, taken, hposition] at hprompt horder
    have hnot : ∀ pollFds, p.position ≠ .drained pollFds := by simp [hposition]
    exact ⟨horder, fun hempty => .inl (h.awake_of hnot hempty), hprompt⟩
  · exact h

theorem RunsCallbacks.take (h : p.RunsCallbacks) : p.take.RunsCallbacks := by
  have hprompt := h.prompt
  have horder := h.order
  unfold SocketPoll.take
  split
  · next pollFds hposition =>
    simp only [Prompt, taken, hposition, List.append_nil] at hprompt horder
    refine ⟨?_, fun hempty => absurd hempty (by simp [wasEmpty]), ?_⟩
    · simpa only [taken, List.append_nil] using horder
    · rw [horder, List.length_append] at hprompt
      exact hprompt
  · exact h

theorem RunsCallbacks.invoke (hcapacity : 0 < capacity) (h : p.RunsCallbacks) :
    (p.invoke capacity).RunsCallbacks := by
  have hprompt := h.prompt
  have horder := h.order
  unfold SocketPoll.invoke
  split
  · next pollFds callback rest hposition =>
    have hnot : ∀ pollFds, p.position ≠ .drained pollFds := by simp [hposition]
    simp only [Prompt, taken, hposition] at hprompt horder
    have hrun : RunsCallbacks { p with
        position := .invoking pollFds rest
        invoked := p.invoked ++ [callback] } := by
      refine ⟨?_, fun hempty => .inl (h.awake_of hnot hempty), ?_⟩
      · rw [horder]
        simp [taken]
      · simp only [Prompt, List.length_append, List.length_cons, List.length_nil] at hprompt ⊢
        omega
    cases hsocket : callback.socket with
    | none => exact hrun
    | some socket => exact hrun.insertNewSocket hcapacity socket
  · next pollFds hposition =>
    have hnot : ∀ pollFds, p.position ≠ .drained pollFds := by simp [hposition]
    simp only [Prompt, taken, hposition, List.append_nil, List.length_nil, Nat.add_zero]
      at hprompt horder
    dsimp only
    split
    · exact ⟨by simpa only [taken, List.append_nil] using horder,
        fun hempty => .inl (h.awake_of hnot hempty), hprompt⟩
    · exact ⟨by simpa only [taken, List.append_nil] using horder,
        fun hempty => .inl (h.awake_of hnot hempty), hprompt⟩
  · exact h

/-- What the loop over the sockets changes, or the end of the thread, is nothing to the callbacks. -/
theorem RunsCallbacks.settle (h : p.RunsCallbacks) {q : SocketPoll} (hadded : q.added = p.added)
    (hinvoked : q.invoked = p.invoked) (hcallbacks : q.newCallbacks = p.newCallbacks)
    (hdue : q.due = p.due) (hwakeup : q.wakeup = p.wakeup)
    (hempty : q.wasEmpty = false → p.wasEmpty = false)
    (hp : p.taken = [] ∧ p.due ≤ p.invoked.length ∧ ∀ pollFds, p.position ≠ .drained pollFds)
    (hq : q.taken = [] ∧ (q.due ≤ q.invoked.length → q.Prompt)) : q.RunsCallbacks where
  order := by rw [hadded, hinvoked, hcallbacks, hq.1, h.order, hp.1]
  awake hq' := .inl (hwakeup ▸ h.awake_of hp.2.2 (hempty hq'))
  prompt := hq.2 (by rw [hdue, hinvoked]; exact hp.2.1)

theorem RunsCallbacks.next (h : p.RunsCallbacks) (handled stays : Bool) :
    (p.next handled stays).RunsCallbacks := by
  have hprompt := h.prompt
  unfold SocketPoll.next
  split
  · next pollFds i j toErase visited hposition =>
    simp only [Prompt, hposition] at hprompt
    split
    · refine h.settle rfl rfl rfl rfl rfl id ⟨by simp only [taken, hposition], hprompt,
        by simp [hposition]⟩ ⟨rfl, id⟩
    · exact h
  · exact h

theorem RunsCallbacks.erase (h : p.RunsCallbacks) : p.erase.RunsCallbacks := by
  have hprompt := h.prompt
  unfold SocketPoll.erase
  split
  · next pollFds i j toErase visited hposition =>
    simp only [Prompt, hposition] at hprompt
    split
    · exact h
    · refine h.settle rfl rfl rfl rfl rfl id ⟨by simp only [taken, hposition], hprompt,
        by simp [hposition]⟩ ⟨rfl, id⟩
  · exact h

theorem RunsCallbacks.removeSockets (h : p.RunsCallbacks) : p.removeSockets.RunsCallbacks := by
  have hprompt := h.prompt
  unfold SocketPoll.removeSockets
  split
  · next hposition =>
    simp only [Prompt, hposition] at hprompt
    refine h.settle rfl rfl rfl rfl rfl ?_ ⟨by simp only [taken, hposition], hprompt,
      by simp [hposition]⟩ ⟨rfl, id⟩
    intro hempty
    simp only [wasEmpty, List.isEmpty_nil, Bool.true_and] at hempty ⊢
    rw [hempty, Bool.and_false]
  · exact h

end SocketPoll

/-- In every poll. -/
def CallbacksRun (w : World) : Prop := ∀ n, (w.polls n).RunsCallbacks

theorem CallbacksRun.setPoll {w : World} (h : CallbacksRun w) (n : Nat) {p : SocketPoll}
    (hp : p.RunsCallbacks) : CallbacksRun (w.setPoll n p) := by
  intro m
  rw [World.setPoll]
  dsimp only
  by_cases hm : m = n
  · rw [hm, Function.update_self]
    exact hp
  · rw [Function.update_of_ne hm]
    exact h m

theorem CallbacksRun.act {capacity : Nat} {fd : Nat → Int} (hcapacity : 0 < capacity) {w : World}
    (h : CallbacksRun w) (a : Action) : CallbacksRun (act capacity fd w a) := by
  cases a with
  | insertNewSocket n => exact h.setPoll n ((h n).insertNewSocket hcapacity w.sockets)
  | addCallback n => exact h.setPoll n ((h n).addCallback hcapacity _)
  | wakeup n => exact h.setPoll n ((h n).wake hcapacity)
  | setupPollFds n => exact h.setPoll n (h n).setupPollFds
  | readPipe n => exact h.setPoll n (h n).readPipe
  | take n => exact h.setPoll n (h n).take
  | invoke n => exact h.setPoll n ((h n).invoke hcapacity)
  | handle n disposition =>
    have hnext := fun handled stays => h.setPoll n ((h n).next handled stays)
    rw [Polling.act, World.handle]
    dsimp only
    cases (w.polls n).current fd with
    | none => exact hnext false true
    | some socket =>
      cases disposition with
      | keep => exact hnext true true
      | closed => exact hnext true false
      | move => exact hnext true false
      | transfer m =>
        have hw := hnext true false
        exact hw.setPoll m ((hw m).addCallback hcapacity _)
  | erase n => exact h.setPoll n (h n).erase
  | place n socket =>
    rw [Polling.act, World.place]
    split
    · exact h.setPoll n ((h n).insertNewSocket hcapacity socket)
    · exact h
  | drop socket =>
    rw [Polling.act, World.drop]
    split
    · exact h
    · exact h
  | removeSockets n =>
    rw [Polling.act, World.removeSockets]
    dsimp only
    split
    · exact h.setPoll n (h n).removeSockets
    · exact h

/-! ## Threads that go on -/

/-- What the thread of a poll does next. -/
inductive Stage where
  | loop
  | polled
  | drained
  | invoking
  | handling
  | erasing
  | finished
deriving DecidableEq

def Position.stage : Position → Stage
  | .loop => .loop
  | .polled _ _ => .polled
  | .drained _ => .drained
  | .invoking _ _ => .invoking
  | .handling pollFds _ j _ _ => if j < pollFds.length then .handling else .erasing
  | .finished => .finished

theorem Position.eq_finished {position : Position} (h : position.stage = .finished) :
    position = .finished := by
  cases position with
  | finished => rfl
  | handling pollFds i j toErase visited =>
    rw [stage] at h
    split at h
    · cases h
    · cases h
  | _ => cases h

/-- The actions with which the thread of a poll goes on. -/
def Action.goesOn (n : Nat) : Stage → Action → Bool
  | .loop, .setupPollFds m => m = n
  | .loop, .removeSockets m => m = n
  | .polled, .readPipe m => m = n
  | .drained, .take m => m = n
  | .invoking, .invoke m => m = n
  | .handling, .handle m _ => m = n
  | .erasing, .erase m => m = n
  | _, _ => false

namespace SocketPoll

variable {capacity : Nat} {fd : Nat → Int} {p q : SocketPoll}

/-- What other threads leave of a poll. -/
structure Stays (p q : SocketPoll) : Prop where
  position : q.position = p.position
  due : q.due = p.due
  added : p.added.length ≤ q.added.length

theorem Stays.refl (p : SocketPoll) : p.Stays p := ⟨rfl, rfl, Nat.le_refl _⟩

theorem stays_insertNewSocket (socket : Nat) : p.Stays (p.insertNewSocket capacity socket) := by
  rw [insertNewSocket]
  split
  · exact ⟨rfl, rfl, Nat.le_refl _⟩
  · exact ⟨rfl, rfl, Nat.le_refl _⟩

theorem stays_addCallback (callback : Callback) : p.Stays (p.addCallback capacity callback) := by
  have hlength : p.added.length ≤ (p.added ++ [callback]).length := by simp
  rw [addCallback]
  split
  · exact ⟨rfl, rfl, hlength⟩
  · exact ⟨rfl, rfl, hlength⟩

/-! A step of the thread does nothing where the thread is somewhere else. -/

theorem setupPollFds_eq (h : p.position.stage ≠ .loop) : p.setupPollFds fd = p := by
  rw [setupPollFds]
  split
  · next hposition => exact absurd (by rw [hposition]; rfl) h
  · rfl

theorem removeSockets_eq (h : p.position.stage ≠ .loop) : p.removeSockets = p := by
  rw [removeSockets]
  split
  · next hposition => exact absurd (by rw [hposition]; rfl) h
  · rfl

theorem readPipe_eq (h : p.position.stage ≠ .polled) : p.readPipe = p := by
  rw [readPipe]
  split
  · next hposition => exact absurd (by rw [hposition]; rfl) h
  · next hposition => exact absurd (by rw [hposition]; rfl) h
  · rfl

theorem take_eq (h : p.position.stage ≠ .drained) : p.take = p := by
  rw [take]
  split
  · next hposition => exact absurd (by rw [hposition]; rfl) h
  · rfl

theorem invoke_eq (h : p.position.stage ≠ .invoking) : p.invoke capacity = p := by
  rw [invoke]
  split
  · next hposition => exact absurd (by rw [hposition]; rfl) h
  · next hposition => exact absurd (by rw [hposition]; rfl) h
  · rfl

theorem next_eq (h : p.position.stage ≠ .handling) (handled stays : Bool) : p.next handled stays = p := by
  rw [next]
  split
  · next hposition =>
    rw [hposition, Position.stage] at h
    split
    · next hmore => exact absurd (if_pos hmore) h
    · rfl
  · rfl

theorem erase_eq (h : p.position.stage ≠ .erasing) : p.erase = p := by
  rw [erase]
  split
  · next hposition =>
    rw [hposition, Position.stage] at h
    split
    · rfl
    · next hdone => exact absurd (if_neg hdone) h
  · rfl

/-! And where it is, the thread comes further. -/

theorem readPipe_stage {pollFds : List Int} {pipe : Bool} (h : p.position = .polled pollFds pipe) :
    p.readPipe.due = p.due ∧
      (p.readPipe.position = .drained pollFds ∨ p.readPipe.position = .invoking pollFds []) := by
  rw [readPipe, h]
  cases pipe with
  | true => exact ⟨rfl, .inl rfl⟩
  | false => exact ⟨rfl, .inr rfl⟩

theorem take_stage {pollFds : List Int} (h : p.position = .drained pollFds) :
    p.take.due = p.due ∧ p.take.position = .invoking pollFds p.newCallbacks := by
  rw [take, h]
  exact ⟨rfl, rfl⟩

variable (capacity) in
/-- One callback fewer is left to be run. -/
theorem invoke_stage_cons {pollFds : List Int} {callback : Callback} {rest : List Callback}
    (h : p.position = .invoking pollFds (callback :: rest)) :
    (p.invoke capacity).due = p.due ∧ (p.invoke capacity).position = .invoking pollFds rest := by
  rw [invoke, h]
  dsimp only
  cases callback.socket with
  | none => exact ⟨rfl, rfl⟩
  | some socket => exact ⟨(stays_insertNewSocket socket).due, (stays_insertNewSocket socket).position⟩

variable (capacity) in
theorem invoke_stage_nil {pollFds : List Int} (h : p.position = .invoking pollFds []) :
    (p.invoke capacity).due = p.due ∧ ((p.invoke capacity).position = .loop ∨
      ∃ start, (p.invoke capacity).position = .handling pollFds start 0 [] []) := by
  rw [invoke, h]
  dsimp only
  split
  · exact ⟨rfl, .inr ⟨_, rfl⟩⟩
  · exact ⟨rfl, .inl rfl⟩

/-- **The loop over the sockets comes one further**, whatever becomes of the socket it is at. -/
theorem next_stage {pollFds : List Int} {i j : Nat} {toErase visited : List Nat}
    (h : p.position = .handling pollFds i j toErase visited) (hmore : j < pollFds.length)
    (handled stays : Bool) : (p.next handled stays).due = p.due ∧ ∃ i' toErase' visited',
      (p.next handled stays).position = .handling pollFds i' (j + 1) toErase' visited' := by
  rw [next, h]
  dsimp only
  rw [if_pos hmore]
  exact ⟨rfl, _, _, _, rfl⟩

theorem erase_stage {pollFds : List Int} {i j : Nat} {toErase visited : List Nat}
    (h : p.position = .handling pollFds i j toErase visited) (hdone : ¬ j < pollFds.length) :
    p.erase.due = p.due ∧ p.erase.position = .loop := by
  rw [erase, h]
  dsimp only
  rw [if_neg hdone]
  exact ⟨rfl, rfl⟩

/-! Nothing takes back what was added. -/

theorem added_setupPollFds : (p.setupPollFds fd).added = p.added := by
  rw [setupPollFds]
  split
  · rfl
  · rfl

theorem added_readPipe : p.readPipe.added = p.added := by
  rw [readPipe]
  split
  · rfl
  · rfl
  · rfl

theorem added_take : p.take.added = p.added := by
  rw [take]
  split
  · rfl
  · rfl

theorem added_invoke : (p.invoke capacity).added = p.added := by
  rw [invoke]
  split
  · next callback rest hposition =>
    cases callback.socket with
    | none => rfl
    | some socket =>
      dsimp only
      rw [insertNewSocket]
      dsimp only
      split
      · rfl
      · rfl
  · dsimp only
    split
    · rfl
    · rfl
  · rfl

theorem added_next (handled stays : Bool) : (p.next handled stays).added = p.added := by
  rw [next]
  split
  · split
    · rfl
    · rfl
  · rfl

theorem added_erase : p.erase.added = p.added := by
  rw [erase]
  split
  · split
    · rfl
    · rfl
  · rfl

theorem added_removeSockets : p.removeSockets.added = p.added := by
  rw [removeSockets]
  split
  · rfl
  · rfl

end SocketPoll

section Threads

open SocketPoll (Stays)

variable {capacity : Nat} {fd : Nat → Int} (w : World) (n : Nat)

theorem World.polls_setPoll (p : SocketPoll) : (w.setPoll n p).polls n = p :=
  Function.update_self ..

theorem World.polls_setPoll_of_ne {m : Nat} (h : n ≠ m) (p : SocketPoll) :
    (w.setPoll m p).polls n = w.polls n :=
  Function.update_of_ne h ..

theorem World.stays_setPoll (m : Nat) {p : SocketPoll} (h : (w.polls m).Stays p) :
    (w.polls n).Stays ((w.setPoll m p).polls n) := by
  by_cases heq : n = m
  · subst heq
    rw [polls_setPoll]
    exact h
  · rw [polls_setPoll_of_ne w n heq]
    exact .refl _

variable (capacity fd) in
/-- What handling a socket makes of the polls. -/
theorem World.handle_polls (m : Nat) (disposition : Disposition) :
    ∃ handled stays, (((w.setPoll m ((w.polls m).next handled stays)).polls n)).Stays
      ((w.handle capacity fd m disposition).polls n) := by
  rw [handle]
  dsimp only
  cases (w.polls m).current fd with
  | none => exact ⟨false, true, .refl _⟩
  | some socket =>
    cases disposition with
    | keep => exact ⟨true, true, .refl _⟩
    | closed => exact ⟨true, false, .refl _⟩
    | move => exact ⟨true, false, .refl _⟩
    | transfer poll =>
      exact ⟨true, false, World.stays_setPoll _ n poll (SocketPoll.stays_addCallback _)⟩

/-- **Only its own thread takes a poll on**, and that with the step that is next. -/
theorem goesOn_or_stays (a : Action) : a.goesOn n (w.polls n).position.stage = true ∨
    (w.polls n).Stays ((act capacity fd w a).polls n) := by
  by_cases hgoes : a.goesOn n (w.polls n).position.stage = true
  · exact .inl hgoes
  -- another poll, or a step that is not the next one
  have hown : ∀ m p, (m = n → p = w.polls m) → (w.polls n).Stays ((w.setPoll m p).polls n) := by
    intro m p hp
    by_cases heq : n = m
    · subst heq
      rw [hp rfl, World.polls_setPoll]
      exact .refl _
    · rw [World.polls_setPoll_of_ne w n heq]
      exact .refl _
  have hstage : ∀ m stage, (m = n → (w.polls n).position.stage = stage → a.goesOn n stage = true) →
      m = n → (w.polls m).position.stage ≠ stage := by
    rintro m stage hon rfl hstage
    exact hgoes (hstage ▸ hon rfl hstage)
  refine .inr ?_
  cases a with
  | insertNewSocket m => exact World.stays_setPoll w n m (SocketPoll.stays_insertNewSocket _)
  | addCallback m => exact World.stays_setPoll w n m (SocketPoll.stays_addCallback _)
  | wakeup m => exact World.stays_setPoll w n m ⟨rfl, rfl, Nat.le_refl _⟩
  | setupPollFds m =>
    exact hown m _ fun hm => SocketPoll.setupPollFds_eq (hstage m _ (fun hm _ => decide_eq_true hm) hm)
  | readPipe m =>
    exact hown m _ fun hm => SocketPoll.readPipe_eq (hstage m _ (fun hm _ => decide_eq_true hm) hm)
  | take m => exact hown m _ fun hm => SocketPoll.take_eq (hstage m _ (fun hm _ => decide_eq_true hm) hm)
  | invoke m => exact hown m _ fun hm => SocketPoll.invoke_eq (hstage m _ (fun hm _ => decide_eq_true hm) hm)
  | handle m disposition =>
    obtain ⟨handled, stays, hstays⟩ := w.handle_polls capacity fd n m disposition
    have hsame := hown m _ fun hm =>
      SocketPoll.next_eq (hstage m .handling (fun hm _ => decide_eq_true hm) hm) handled stays
    exact ⟨hstays.position.trans hsame.position, hstays.due.trans hsame.due, hsame.added.trans hstays.added⟩
  | erase m => exact hown m _ fun hm => SocketPoll.erase_eq (hstage m _ (fun hm _ => decide_eq_true hm) hm)
  | place m socket =>
    rw [act, World.place]
    split
    · exact World.stays_setPoll w n m (SocketPoll.stays_insertNewSocket _)
    · exact .refl _
  | drop socket =>
    rw [act, World.drop]
    split
    · exact .refl _
    · exact .refl _
  | removeSockets m =>
    have hsame := hown m _ fun hm =>
      SocketPoll.removeSockets_eq (hstage m .loop (fun hm _ => decide_eq_true hm) hm)
    rw [act, World.removeSockets]
    dsimp only
    split
    · exact hsame
    · exact .refl _

variable (capacity fd) in
theorem added_le_act (a : Action) :
    (w.polls n).added.length ≤ ((act capacity fd w a).polls n).added.length := by
  have hsame : ∀ m p, p.added = (w.polls m).added →
      (w.polls n).added.length ≤ ((w.setPoll m p).polls n).added.length := by
    intro m p hp
    by_cases heq : n = m
    · subst heq
      rw [World.polls_setPoll, hp]
    · rw [World.polls_setPoll_of_ne w n heq]
  cases a with
  | insertNewSocket m => exact (World.stays_setPoll w n m (SocketPoll.stays_insertNewSocket _)).added
  | addCallback m => exact (World.stays_setPoll w n m (SocketPoll.stays_addCallback _)).added
  | wakeup m => exact hsame m _ rfl
  | setupPollFds m => exact hsame m _ SocketPoll.added_setupPollFds
  | readPipe m => exact hsame m _ SocketPoll.added_readPipe
  | take m => exact hsame m _ SocketPoll.added_take
  | invoke m => exact hsame m _ SocketPoll.added_invoke
  | handle m disposition =>
    obtain ⟨handled, stays, hstays⟩ := w.handle_polls capacity fd n m disposition
    exact (hsame m _ (SocketPoll.added_next handled stays)).trans hstays.added
  | erase m => exact hsame m _ SocketPoll.added_erase
  | place m socket =>
    rw [act, World.place]
    split
    · exact (World.stays_setPoll w n m (SocketPoll.stays_insertNewSocket _)).added
    · exact Nat.le_refl _
  | drop socket =>
    rw [act, World.drop]
    split
    · exact Nat.le_refl _
    · exact Nat.le_refl _
  | removeSockets m =>
    rw [act, World.removeSockets]
    dsimp only
    split
    · exact hsame m _ SocketPoll.added_removeSockets
    · exact Nat.le_refl _

end Threads

section Runs

variable (capacity : Nat) (fd : Nat → Int) (as : Nat → Action) (n : Nat)

/-- The world at a time. -/
def worldAt (i : Nat) : World := Run.stateAt (act capacity fd) .init as i

/-- The thread of a poll goes on until it ends: none of its steps is put off for ever. -/
def GoesOn : Prop :=
  ∀ stage, stage ≠ .finished → Run.FairFor (act capacity fd) .init as
    (fun w => (w.polls n).position.stage = stage) fun a => a.goesOn n stage = true

/-- The thread of a poll is somewhere, and is to have run so many callbacks when its call ends. -/
def At (k : Nat) (there : Position → Prop) (w : World) : Prop :=
  there (w.polls n).position ∧ k ≤ (w.polls n).due

variable {capacity fd as n} (h : GoesOn capacity fd as n) (k : Nat)
include h

/-- A step of the thread is taken in the end, and what it leads to holds then. -/
theorem GoesOn.leadsTo (stage : Stage) (hend : stage ≠ .finished) {there : Position → Prop}
    (hthere : ∀ position, there position → position.stage = stage) {Q : World → Prop}
    (hgo : ∀ w a, At n k there w → a.goesOn n stage = true → Q (act capacity fd w a)) :
    Run.LeadsTo (act capacity fd) .init as (At n k there) Q := by
  have hfair := Run.leadsTo_of_fair (I := fun _ => True) (P := At n k there) (Q := Q)
    (fun _ => trivial) (h stage hend) (fun w a _ hw => ?_) fun w a _ hw _ ha => hgo w a hw ha
  · exact fun i hi => hfair i ⟨hi, hthere _ hi.1⟩
  · rcases goesOn_or_stays w n a with hgoes | hstays
    · rw [hthere _ hw.1] at hgoes
      exact .inr (hgo w a hw hgoes)
    · refine .inl ⟨?_, ?_⟩
      · rw [hstays.position]
        exact hw.1
      · rw [hstays.due]
        exact hw.2

/-- The loop over the sockets ends, after as many steps as there are sockets left. -/
theorem GoesOn.leadsTo_loop_of_handling (left : Nat) : Run.LeadsTo (act capacity fd) .init as
    (At n k fun position => ∃ pollFds i j toErase visited, position = .handling pollFds i j toErase visited ∧
      pollFds.length - j = left) (At n k (· = .loop)) := by
  induction left with
  | zero =>
    refine h.leadsTo k .erasing (by decide) ?_ ?_
    · rintro _ ⟨pollFds, i, j, toErase, visited, rfl, hleft⟩
      exact if_neg (by omega)
    · rintro w a ⟨⟨pollFds, i, j, toErase, visited, hposition, hleft⟩, hdue⟩ ha
      cases a with
      | erase m =>
        obtain rfl := of_decide_eq_true ha
        obtain ⟨hsame, hloop⟩ := SocketPoll.erase_stage hposition (by omega)
        rw [act, At, World.polls_setPoll, hsame]
        exact ⟨hloop, hdue⟩
      | _ => cases ha
  | succ left ih =>
    refine Run.LeadsTo.trans (h.leadsTo k .handling (by decide) ?_ ?_) ih
    · rintro _ ⟨pollFds, i, j, toErase, visited, rfl, hleft⟩
      exact if_pos (by omega)
    · rintro w a ⟨⟨pollFds, i, j, toErase, visited, hposition, hleft⟩, hdue⟩ ha
      cases a with
      | handle m disposition =>
        obtain rfl := of_decide_eq_true ha
        obtain ⟨handled, stays, hstays⟩ := w.handle_polls capacity fd m m disposition
        obtain ⟨hsame, i', toErase', visited', hnext⟩ :=
          SocketPoll.next_stage hposition (by omega) handled stays
        rw [World.polls_setPoll] at hstays
        rw [act, At, hstays.due, hstays.position, hsame]
        exact ⟨⟨pollFds, i', j + 1, toErase', visited', hnext, by omega⟩, hdue⟩
      | _ => cases ha

/-- The callbacks that were taken are run. -/
theorem GoesOn.leadsTo_loop_of_invoking (left : Nat) : Run.LeadsTo (act capacity fd) .init as
    (At n k fun position => ∃ pollFds invoke, position = .invoking pollFds invoke ∧ invoke.length = left)
    (At n k (· = .loop)) := by
  induction left with
  | zero =>
    have hloop : Run.LeadsTo (act capacity fd) .init as (At n k (· = .loop)) (At n k (· = .loop)) :=
      fun i hi => ⟨i, Nat.le_refl i, hi⟩
    have hhandling : Run.LeadsTo (act capacity fd) .init as (At n k fun position =>
        ∃ pollFds start, position = .handling pollFds start 0 [] []) (At n k (· = .loop)) := by
      rintro i ⟨⟨pollFds, start, hposition⟩, hdue⟩
      exact h.leadsTo_loop_of_handling k pollFds.length i ⟨⟨_, _, _, _, _, hposition, rfl⟩, hdue⟩
    refine Run.LeadsTo.trans (h.leadsTo k .invoking (by decide) ?_ ?_) (hloop.or hhandling)
    · rintro _ ⟨pollFds, invoke, rfl, -⟩
      rfl
    · rintro w a ⟨⟨pollFds, invoke, hposition, hleft⟩, hdue⟩ ha
      cases a with
      | invoke m =>
        obtain rfl := of_decide_eq_true ha
        obtain rfl := List.eq_nil_of_length_eq_zero hleft
        obtain ⟨hsame, hnext⟩ := SocketPoll.invoke_stage_nil capacity hposition
        rw [act, At, At, World.polls_setPoll, hsame]
        rcases hnext with hnext | ⟨start, hnext⟩
        · exact .inl ⟨hnext, hdue⟩
        · exact .inr ⟨⟨pollFds, start, hnext⟩, hdue⟩
      | _ => cases ha
  | succ left ih =>
    refine Run.LeadsTo.trans (h.leadsTo k .invoking (by decide) ?_ ?_) ih
    · rintro _ ⟨pollFds, invoke, rfl, -⟩
      rfl
    · rintro w a ⟨⟨pollFds, invoke, hposition, hleft⟩, hdue⟩ ha
      cases a with
      | invoke m =>
        obtain rfl := of_decide_eq_true ha
        cases invoke with
        | nil => cases hleft
        | cons callback rest =>
          obtain ⟨hsame, hnext⟩ := SocketPoll.invoke_stage_cons capacity hposition
          rw [act, At, World.polls_setPoll, hsame]
          exact ⟨⟨pollFds, rest, hnext, Nat.succ.inj hleft⟩, hdue⟩
      | _ => cases ha

/-- **A call of `poll` ends**, wherever its thread is. -/
theorem GoesOn.leadsTo_loop : Run.LeadsTo (act capacity fd) .init as (At n k (·.stage ≠ .finished))
    (At n k (· = .loop)) := by
  have hinvoking : Run.LeadsTo (act capacity fd) .init as
      (At n k fun position => ∃ pollFds invoke, position = .invoking pollFds invoke)
      (At n k (· = .loop)) := by
    rintro i ⟨⟨pollFds, invoke, hposition⟩, hdue⟩
    exact h.leadsTo_loop_of_invoking k invoke.length i ⟨⟨pollFds, invoke, hposition, rfl⟩, hdue⟩
  have hdrained : Run.LeadsTo (act capacity fd) .init as
      (At n k fun position => ∃ pollFds, position = .drained pollFds) (At n k (· = .loop)) := by
    refine Run.LeadsTo.trans (h.leadsTo k .drained (by decide) ?_ ?_) hinvoking
    · rintro _ ⟨pollFds, rfl⟩
      rfl
    · rintro w a ⟨⟨pollFds, hposition⟩, hdue⟩ ha
      cases a with
      | take m =>
        obtain rfl := of_decide_eq_true ha
        obtain ⟨hsame, hnext⟩ := SocketPoll.take_stage hposition
        rw [act, At, World.polls_setPoll, hsame]
        exact ⟨⟨pollFds, _, hnext⟩, hdue⟩
      | _ => cases ha
  have hpolled : Run.LeadsTo (act capacity fd) .init as
      (At n k fun position => ∃ pollFds pipe, position = .polled pollFds pipe) (At n k (· = .loop)) := by
    refine Run.LeadsTo.trans (h.leadsTo k .polled (by decide) ?_ ?_) (hdrained.or hinvoking)
    · rintro _ ⟨pollFds, pipe, rfl⟩
      rfl
    · rintro w a ⟨⟨pollFds, pipe, hposition⟩, hdue⟩ ha
      cases a with
      | readPipe m =>
        obtain rfl := of_decide_eq_true ha
        obtain ⟨hsame, hnext⟩ := SocketPoll.readPipe_stage hposition
        rw [act, At, At, World.polls_setPoll, hsame]
        rcases hnext with hnext | hnext
        · exact .inl ⟨⟨pollFds, hnext⟩, hdue⟩
        · exact .inr ⟨⟨pollFds, [], hnext⟩, hdue⟩
      | _ => cases ha
  rintro i ⟨hnot, hdue⟩
  cases hposition : ((Run.stateAt (act capacity fd) .init as i).polls n).position with
  | loop => exact ⟨i, Nat.le_refl i, hposition, hdue⟩
  | polled pollFds pipe => exact hpolled i ⟨⟨pollFds, pipe, hposition⟩, hdue⟩
  | drained pollFds => exact hdrained i ⟨⟨pollFds, hposition⟩, hdue⟩
  | invoking pollFds invoke => exact hinvoking i ⟨⟨pollFds, invoke, hposition⟩, hdue⟩
  | handling pollFds i' j toErase visited =>
    exact h.leadsTo_loop_of_handling k _ i ⟨⟨pollFds, i', j, toErase, visited, hposition, rfl⟩, hdue⟩
  | finished =>
    rw [hposition] at hnot
    exact absurd rfl hnot

/-- A call begins, for what was added by then, or the thread ends. -/
theorem GoesOn.leadsTo_polled : Run.LeadsTo (act capacity fd) .init as
    (fun w => (w.polls n).position = .loop ∧ k ≤ (w.polls n).added.length)
    (fun w => At n k (·.stage ≠ .finished) w ∨ (w.polls n).position = .finished) := by
  have hgo : ∀ w a, (w.polls n).position = .loop ∧ k ≤ (w.polls n).added.length →
      a.goesOn n .loop = true → At n k (·.stage ≠ .finished) (act capacity fd w a) ∨
        ((act capacity fd w a).polls n).position = .finished := by
    rintro w a ⟨hposition, hadded⟩ ha
    cases a with
    | setupPollFds m =>
      obtain rfl := of_decide_eq_true ha
      rw [act, At, World.polls_setPoll, SocketPoll.setupPollFds, hposition]
      exact .inl ⟨nofun, hadded⟩
    | removeSockets m =>
      obtain rfl := of_decide_eq_true ha
      right
      rw [act, World.removeSockets, hposition]
      show ((w.setPoll m (w.polls m).removeSockets).polls m).position = .finished
      rw [World.polls_setPoll, SocketPoll.removeSockets, hposition]
    | _ => cases ha
  have hfair := Run.leadsTo_of_fair (I := fun _ => True)
    (P := fun w => (w.polls n).position = .loop ∧ k ≤ (w.polls n).added.length)
    (Q := fun w => At n k (·.stage ≠ .finished) w ∨ (w.polls n).position = .finished)
    (fun _ => trivial) (h .loop (by decide)) (fun w a _ hw => ?_) fun w a _ hw _ ha => hgo w a hw ha
  · exact fun i hi => hfair i ⟨hi, congrArg Position.stage hi.1⟩
  · rcases goesOn_or_stays w n a with hgoes | hstays
    · rw [hw.1] at hgoes
      exact .inr (hgo w a hw hgoes)
    · exact .inl ⟨hstays.position.trans hw.1, hw.2.trans hstays.added⟩

end Runs

/-- **Every callback is run once, in order, and soon.** In every state of every interleaving, what a
poll has run, what it has taken and what waits is what was added, in that order; what waits has woken
the poll; and a call of `poll` ends with everything run that had been added when it began. Whatever was
added is run in the end where the thread of the poll goes on, unless the thread ends. -/
theorem callbacks_run {capacity : Nat} (hcapacity : 0 < capacity) (fd : Nat → Int) (as : Nat → Action) :
    (∀ i, CallbacksRun (worldAt capacity fd as i)) ∧
      ∀ n, GoesOn capacity fd as n → ∀ i, ∃ j, i ≤ j ∧
        (((worldAt capacity fd as j).polls n).position = .finished ∨
          ((worldAt capacity fd as i).polls n).added.length ≤
            ((worldAt capacity fd as j).polls n).invoked.length) := by
  have hruns : ∀ i, CallbacksRun (worldAt capacity fd as i) :=
    Run.stateAt_inv CallbacksRun (fun _ a h => CallbacksRun.act hcapacity h a) fun _ => .new
  refine ⟨hruns, fun n hgoes i => ?_⟩
  by_cases hfinished : ((worldAt capacity fd as i).polls n).position.stage = .finished
  · exact ⟨i, Nat.le_refl i, .inl (Position.eq_finished hfinished)⟩
  -- the call that is under way ends, and the next one runs what has been added by now
  obtain ⟨m, hm, hloop, -⟩ := hgoes.leadsTo_loop 0 i ⟨hfinished, Nat.zero_le _⟩
  have hadded : ((worldAt capacity fd as i).polls n).added.length ≤
      ((worldAt capacity fd as m).polls n).added.length :=
    Run.stateAt_le (f := fun w => (w.polls n).added.length)
      (fun w a => added_le_act capacity fd w n a) hm
  obtain ⟨l, hl, hpolled | hend⟩ := hgoes.leadsTo_polled _ m ⟨hloop, hadded⟩
  · obtain ⟨j, hj, hloop, hdue⟩ := hgoes.leadsTo_loop _ l hpolled
    have hprompt := (hruns j n).prompt
    rw [worldAt, SocketPoll.Prompt, hloop] at hprompt
    exact ⟨j, (hm.trans hl).trans hj, .inr (hdue.trans hprompt)⟩
  · exact ⟨l, hm.trans hl, .inl hend⟩

/-- A poll transfers a socket to another one, whose thread takes it in with the callback and then goes over
it, over and over. -/
def transferRun : Nat → Action
  | 0 => .insertNewSocket 0
  | 1 => .setupPollFds 0
  | 2 => .readPipe 0
  | 3 => .take 0
  | 4 => .invoke 0
  | 5 => .setupPollFds 0
  | 6 => .readPipe 0
  | 7 => .invoke 0
  | 8 => .handle 0 (.transfer 1)
  | 9 => .erase 0
  | 10 => .setupPollFds 1
  | 11 => .readPipe 1
  | 12 => .take 1
  | 13 => .invoke 1
  | 14 => .invoke 1
  | 15 => .setupPollFds 1
  | 16 => .readPipe 1
  | 17 => .take 1
  | 18 => .invoke 1
  | i + 19 =>
    match i % 5 with
    | 0 => .setupPollFds 1
    | 1 => .readPipe 1
    | 2 => .invoke 1
    | 3 => .handle 1 .keep
    | _ => .erase 1

def transferFd (socket : Nat) : Int := socket + 3

/-- With a pipe that holds 64 kB. -/
def transferAt (i : Nat) : World := worldAt 65536 transferFd transferRun i

/-- The second poll while it goes over its socket. -/
def overAndOver (position : Position) : SocketPoll where
  pollSockets := [0]
  pollStartIndex := 0
  newSockets := []
  newCallbacks := []
  wakeup := 0
  position := position
  added := [⟨0, some 0⟩]
  invoked := [⟨0, some 0⟩]
  due := 1

/-- Where the thread is in each round. -/
def roundPosition : Nat → Position
  | 0 => .loop
  | 1 => .polled [3] false
  | 2 => .invoking [3] []
  | 3 => .handling [3] 0 0 [] []
  | _ => .handling [3] 0 1 [] [0]

theorem transferRun_round (k : Nat) : ∀ r < 5, transferRun (5 * k + r + 19) = transferRun (r + 19) := by
  intro r _
  simp only [transferRun, Nat.mul_add_mod]

theorem transferAt_step {k r : Nat} (hr : r < 5)
    (h : (transferAt (5 * k + r + 19)).polls 1 = overAndOver (roundPosition r)) :
    (transferAt (5 * k + r + 20)).polls 1 = overAndOver (roundPosition ((r + 1) % 5)) := by
  have hstep : transferAt (5 * k + r + 20) =
      act 65536 transferFd (transferAt (5 * k + r + 19)) (transferRun (5 * k + r + 19)) := rfl
  rw [hstep, transferRun_round k r hr]
  generalize transferAt (5 * k + r + 19) = w at h
  match r, hr with
  | 0, _ =>
    show (w.setPoll 1 ((w.polls 1).setupPollFds transferFd)).polls 1 = _
    rw [World.polls_setPoll, h]
    rfl
  | 1, _ =>
    show (w.setPoll 1 (w.polls 1).readPipe).polls 1 = _
    rw [World.polls_setPoll, h]
    rfl
  | 2, _ =>
    show (w.setPoll 1 ((w.polls 1).invoke 65536)).polls 1 = _
    rw [World.polls_setPoll, h]
    rfl
  | 3, _ =>
    show (w.handle 65536 transferFd 1 .keep).polls 1 = _
    rw [World.handle, h]
    show (w.setPoll 1 _).polls 1 = _
    rw [World.polls_setPoll]
    rfl
  | 4, _ =>
    show (w.setPoll 1 (w.polls 1).erase).polls 1 = _
    rw [World.polls_setPoll, h]
    rfl

theorem transferAt_round (i : Nat) :
    (transferAt (i + 19)).polls 1 = overAndOver (roundPosition (i % 5)) := by
  induction i with
  | zero => rfl
  | succ i ih =>
    have hi := Nat.div_add_mod i 5
    have hr : i % 5 < 5 := Nat.mod_lt _ (by decide)
    have hnext := transferAt_step (k := i / 5) hr (by rw [hi]; exact ih)
    rw [hi] at hnext
    rw [← Nat.mod_add_mod i 5 1]
    exact hnext

/-- The second thread never ends, and takes the step that is next, then or later. -/
theorem transferRun_goesOn : GoesOn 65536 transferFd transferRun 1 := by
  have hbegin : ∀ i < 19, ∃ m < 20, i ≤ m ∧
      (transferRun m).goesOn 1 ((transferAt i).polls 1).position.stage = true ∧
        ((transferAt m).polls 1).position.stage = ((transferAt i).polls 1).position.stage := by
    decide +kernel
  have hround : ∀ r < 5, (transferRun (r + 19)).goesOn 1 (roundPosition r).stage = true := by
    decide
  rintro _ - i rfl
  by_cases hi : i < 19
  · obtain ⟨m, -, hm, hgoes, hsame⟩ := hbegin i hi
    exact ⟨m, hm, hgoes, hsame⟩
  · obtain ⟨i, rfl⟩ := Nat.exists_eq_add_of_le' (Nat.le_of_not_lt hi)
    refine ⟨i + 19, Nat.le_refl _, ?_, rfl⟩
    have hrun := transferRun_round (i / 5) (i % 5) (Nat.mod_lt _ (by decide))
    rw [Nat.div_add_mod] at hrun
    show (transferRun (i + 19)).goesOn 1 ((transferAt (i + 19)).polls 1).position.stage = true
    rw [transferAt_round, hrun]
    exact hround _ (Nat.mod_lt _ (by decide))

/-- The callback of the transfer, which waits when the first poll is done, is run. -/
theorem callbacks_run_transfer : (∀ i, CallbacksRun (transferAt i)) ∧
    ((transferAt 9).polls 1).added = [⟨0, some 0⟩] ∧ ((transferAt 9).polls 1).invoked = [] ∧ ∃ j, 9 ≤ j ∧
      (((transferAt j).polls 1).position = .finished ∨ 1 ≤ ((transferAt j).polls 1).invoked.length) :=
  have h := callbacks_run (by decide) transferFd transferRun
  ⟨h.1, by decide, by decide, h.2 1 transferRun_goesOn 9⟩

end Oxool.Net.Polling
