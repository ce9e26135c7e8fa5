import Mathlib.Data.List.Nodup
import Mathlib.Logic.Function.Basic
import Oxool.Lib.Fair

/-!
# Module agents (`OxOOL/ModuleManager.cpp`, `OxOOL/ModuleManager/ModuleAgent.cpp`)

A request for a module is run by an agent, which is a thread with a socket poll of its own. The thread
that got the request picks an agent that is not busy, writes the request into the agent's fields and
queues a callback; the agent's thread runs the callback, which takes whatever is in the fields by then.

Two threads write the fields. Each assignment is an action here, and so is each step of the agent's
loop, so that a run is any interleaving of them. How long an agent has been idle is not counted: a
time-out of its poll says whether it was too long. Only the agent's own thread keeps that time, so that
nothing another thread does afterwards makes a difference to it. A callback is written down with the
dispatch that queued it, and so are the invocations of handlers; the code reads neither.

Two requests may be for one agent, as an agent is picked under the lock and marked busy outside of it.
What the fields have to hold for each of them is `Fields`, from when it is written until the handler is
invoked; where its callback is to be found is `Callbacks`.

`Proper` says when the branches that go wrong are not taken: at the poll's time-out and where the agent
is picked, not where the thread leaves its loop, and where the head of the loop decides to purge, not at
the assignments of `purge`. That a thread leaves only with nothing to run, and that an agent is idle only
when the handler has returned, is then for `Inv.act` to prove.

That a handler is invoked at all needs the threads to go on. `Position.togo` counts the steps of a thread
to its next poll: each step takes it down (`takes_act`), and nobody else takes it up again
(`goesOn_or_waits`), so that what the poll has taken is run and what is new is taken.
-/

set_option autoImplicit false

namespace Oxool.Modules.Agents

/-! ## The agents -/

/-- Where the thread of an agent is. In `poll` it has the callbacks that it took, and the sockets that
it polled. -/
inductive Position where
  | loop
  | purgeModule
  | purgeSocket
  | purgeRunning
  | purgeBusy
  | polling
  | callbacks (queue sockets : List Nat)
  | started (callback : Nat) (queue sockets : List Nat)
  | handling (callback : Nat) (queue sockets : List Nat)
  | events (sockets : List Nat)
  | timedOut (expired : Bool)
  | left
  | finished
deriving DecidableEq

/-- `ModuleAgent`, and what it has of `SocketPoll`. -/
structure Agent where
  mbBusy : Bool
  mbModuleRunning : Bool
  mpSavedModule : Option Nat
  mpSavedSocket : Option Nat
  maRequest : Option Nat
  newSockets : List Nat
  newCallbacks : List Nat
  pollSockets : List Nat
  position : Position

namespace Agent

/-- The constructor: `purge` and `startThread`. -/
def new : Agent where
  mbBusy := false
  mbModuleRunning := false
  mpSavedModule := none
  mpSavedSocket := none
  maRequest := none
  newSockets := []
  newCallbacks := []
  pollSockets := []
  position := .loop

def isAlive (a : Agent) : Bool := a.position != .finished

def isIdle (a : Agent) : Bool := a.isAlive && !a.mbBusy

/-- The thread is in the loop of `pollingThread`. -/
def inLoop (a : Agent) : Bool := a.position != .left && a.position != .finished

/-- The thread is going to stay in the loop: it has not been idle for too long. -/
def staysInLoop (a : Agent) : Bool := a.inLoop && a.position != .timedOut true

/-- The thread is clearing the fields. -/
def isPurging (a : Agent) : Bool :=
  a.position ∈ [.purgeModule, .purgeSocket, .purgeRunning, .purgeBusy]

/-- The callbacks that the thread has taken and not run. -/
def taken (a : Agent) : List Nat :=
  match a.position with
  | .callbacks queue _ => queue
  | .started callback queue _ => callback :: queue
  | .handling _ queue _ => queue
  | _ => []

/-- The callbacks that are still to be run, in their order. -/
def pending (a : Agent) : List Nat := a.taken ++ a.newCallbacks

/-- The callback whose handler is running. -/
def running (a : Agent) : Option Nat :=
  match a.position with
  | .handling callback _ _ => some callback
  | _ => none

end Agent

/-! ## The dispatches -/

/-- How far a dispatch is: the assignments of `ModuleAgent::handleRequest`, the hand-over of the
socket, the callback; then what became of it. -/
inductive Phase where
  | chosen
  | busy
  | module
  | socket
  | request
  | inserted
  | queued
  | invoked
  | returned
deriving DecidableEq

/-- How many steps have been taken. -/
def Phase.rank : Phase → Nat
  | .chosen => 0
  | .busy => 1
  | .module => 2
  | .socket => 3
  | .request => 4
  | .inserted => 5
  | .queued => 6
  | .invoked => 7
  | .returned => 8

structure Dispatch where
  agent : Nat
  module : Nat
  request : Nat
  socket : Nat
  phase : Phase

/-- A handler was invoked: by the callback of which dispatch, and with what. -/
structure Invocation where
  dispatch : Nat
  module : Option Nat
  request : Option Nat
  socket : Option Nat
deriving DecidableEq

structure World where
  mpAgentsPool : List Nat
  agents : Nat → Agent
  agentCount : Nat
  dispatches : Nat → Dispatch
  accepted : Nat
  closed : List Nat
  invocations : List Invocation

namespace World

def init : World where
  mpAgentsPool := []
  agents _ := .new
  agentCount := 0
  dispatches _ := ⟨0, 0, 0, 0, .returned⟩
  accepted := 0
  closed := []
  invocations := []

variable (w : World)

def setAgent (a : Nat) (agent : Agent) : World :=
  { w with agents := Function.update w.agents a agent }

def setPosition (a : Nat) (position : Position) : World :=
  w.setAgent a { w.agents a with position := position }

def setPhase (d : Nat) (phase : Phase) : World :=
  { w with dispatches := Function.update w.dispatches d { w.dispatches d with phase := phase } }

/-- The first idle agent of the pool. -/
def idleAgent : Option Nat := w.mpAgentsPool.find? fun a => (w.agents a).isIdle

def dispatchTo (agent module request socket : Nat) : World :=
  { w with
    dispatches := Function.update w.dispatches w.accepted ⟨agent, module, request, socket, .chosen⟩
    accepted := w.accepted + 1 }

/-- A new agent. -/
def newAgent : World :=
  { w.setAgent w.agentCount .new with
    mpAgentsPool := w.mpAgentsPool ++ [w.agentCount]
    agentCount := w.agentCount + 1 }

/-- `ModuleManager::handleRequest` picks the agent. -/
def accept (module request socket : Nat) : World :=
  match w.idleAgent with
  | some a => w.dispatchTo a module request socket
  | none => w.newAgent.dispatchTo w.agentCount module request socket

/-- The next step of `ModuleAgent::handleRequest` and of the move that it leaves behind. -/
def advance (d : Nat) : World :=
  let dispatch := w.dispatches d
  let agent := w.agents dispatch.agent
  match dispatch.phase with
  | .chosen => (w.setAgent dispatch.agent { agent with mbBusy := true }).setPhase d .busy
  | .busy =>
    (w.setAgent dispatch.agent { agent with mpSavedModule := some dispatch.module }).setPhase d
      .module
  | .module =>
    (w.setAgent dispatch.agent { agent with mpSavedSocket := some dispatch.socket }).setPhase d
      .socket
  | .socket =>
    (w.setAgent dispatch.agent { agent with maRequest := some dispatch.request }).setPhase d .request
  | .request =>
    (w.setAgent dispatch.agent
      { agent with newSockets := agent.newSockets ++ [dispatch.socket] }).setPhase d .inserted
  | .inserted =>
    (w.setAgent dispatch.agent { agent with newCallbacks := agent.newCallbacks ++ [d] }).setPhase d
      .queued
  | _ => w

/-- The head of the loop finds a request whose client is gone. -/
def Purges (a : Nat) : Prop :=
  (w.agents a).position = .loop ∧ (w.agents a).mbBusy = true ∧
    (∃ s ∈ (w.agents a).mpSavedSocket, s ∈ w.closed) ∧ (w.agents a).mbModuleRunning = false

instance (a : Nat) : Decidable (w.Purges a) := inferInstanceAs (Decidable (_ ∧ _))

/-- The head of the loop. -/
def check (a : Nat) : World :=
  if (w.agents a).position = .loop then
    w.setPosition a (if w.Purges a then .purgeModule else .polling)
  else w

/-- The next assignment of `purge`. -/
def purge (a : Nat) : World :=
  let agent := w.agents a
  match agent.position with
  | .purgeModule => w.setAgent a { agent with mpSavedModule := none, position := .purgeSocket }
  | .purgeSocket => w.setAgent a { agent with mpSavedSocket := none, position := .purgeRunning }
  | .purgeRunning => w.setAgent a { agent with mbModuleRunning := false, position := .purgeBusy }
  | .purgeBusy => w.setAgent a { agent with mbBusy := false, position := .polling }
  | _ => w

/-- `poll` returns with events, among them that of the pipe or not. -/
def wake (a : Nat) (pipe : Bool) : World :=
  let agent := w.agents a
  match agent.position with
  | .polling =>
    if pipe then
      w.setAgent a { agent with
        newSockets := []
        newCallbacks := []
        pollSockets := agent.pollSockets ++ agent.newSockets
        position := .callbacks agent.newCallbacks agent.pollSockets }
    else w.setPosition a (.callbacks [] agent.pollSockets)
  | _ => w

/-- `poll` can time out: nothing is queued. -/
def TimesOut (a : Nat) : Prop :=
  (w.agents a).position = .polling ∧ (w.agents a).newSockets = [] ∧ (w.agents a).newCallbacks = []

instance (a : Nat) : Decidable (w.TimesOut a) := inferInstanceAs (Decidable (_ ∧ _))

/-- `poll` times out; the agent has been idle for too long, or not yet. The time is kept by the thread
alone. -/
def timeout (a : Nat) (expired : Bool) : World :=
  if w.TimesOut a then w.setPosition a (.timedOut expired) else w

/-- The next step of `poll` with the callbacks, and of the callback that `startRunning` queued. The
callback dereferences the saved module and the saved socket, null or not. -/
def run (a : Nat) : World :=
  let agent := w.agents a
  match agent.position with
  | .callbacks [] sockets => w.setPosition a (.events sockets)
  | .callbacks (callback :: queue) sockets =>
    w.setAgent a { agent with
      mbModuleRunning := true
      position := .started callback queue sockets }
  | .started callback queue sockets =>
    { (w.setPosition a (.handling callback queue sockets)).setPhase callback .invoked with
      invocations := w.invocations ++
        [⟨callback, agent.mpSavedModule, agent.maRequest, agent.mpSavedSocket⟩] }
  | _ => w

/-- The handler returns, and `stopRunning`; or it throws. -/
def returns (a : Nat) (throws : Bool) : World :=
  let agent := w.agents a
  match agent.position with
  | .handling callback queue sockets =>
    (w.setAgent a { agent with
      mbModuleRunning := if throws then agent.mbModuleRunning else false
      position := .callbacks queue sockets }).setPhase callback .returned
  | _ => w

/-- The events of a socket are that its client is gone. -/
def hangUp (a socket : Nat) : World :=
  let agent := w.agents a
  match agent.position with
  | .events sockets =>
    if socket ∈ sockets then
      { w.setAgent a { agent with
          pollSockets := agent.pollSockets.erase socket
          position := .events (sockets.erase socket) } with
        closed := socket :: w.closed }
    else w
  | _ => w

/-- The loop goes on, after events or a time-out. -/
def resume (a : Nat) : World :=
  match (w.agents a).position with
  | .events _ => w.setPosition a .loop
  | .timedOut false => w.setPosition a .loop
  | _ => w

/-- The agent has been idle for too long. -/
def leave (a : Nat) : World :=
  if (w.agents a).position = .timedOut true then w.setPosition a .left else w

/-- The thread ends. -/
def finish (a : Nat) : World :=
  if (w.agents a).position = .left then
    w.setAgent a { w.agents a with
      newSockets := []
      pollSockets := []
      position := .finished }
  else w

def cleanupDeadAgents : World :=
  { w with mpAgentsPool := w.mpAgentsPool.filter fun a => (w.agents a).isAlive }

end World

inductive Action where
  | accept (module request socket : Nat)
  | advance (d : Nat)
  | check (a : Nat)
  | purge (a : Nat)
  | wake (a : Nat) (pipe : Bool)
  | timeout (a : Nat) (expired : Bool)
  | run (a : Nat)
  | returns (a : Nat) (throws : Bool)
  | hangUp (a socket : Nat)
  | resume (a : Nat)
  | leave (a : Nat)
  | finish (a : Nat)
  | cleanupDeadAgents
deriving DecidableEq

def act (w : World) : Action → World
  | .accept module request socket => w.accept module request socket
  | .advance d => if d < w.accepted then w.advance d else w
  | .check a => w.check a
  | .purge a => w.purge a
  | .wake a pipe => w.wake a pipe
  | .timeout a expired => w.timeout a expired
  | .run a => w.run a
  | .returns a throws => w.returns a throws
  | .hangUp a socket => w.hangUp a socket
  | .resume a => w.resume a
  | .leave a => w.leave a
  | .finish a => w.finish a
  | .cleanupDeadAgents => w.cleanupDeadAgents

/-! ## Where a thread is -/

/-- The positions, but for what the thread has there. -/
inductive Stage where
  | loop
  | purging
  | polling
  | callbacks
  | started
  | handling
  | events
  | idle
  | expired
  | left
  | finished
deriving DecidableEq

def Position.stage : Position → Stage
  | .loop => .loop
  | .purgeModule => .purging
  | .purgeSocket => .purging
  | .purgeRunning => .purging
  | .purgeBusy => .purging
  | .polling => .polling
  | .callbacks _ _ => .callbacks
  | .started _ _ _ => .started
  | .handling _ _ _ => .handling
  | .events _ => .events
  | .timedOut false => .idle
  | .timedOut true => .expired
  | .left => .left
  | .finished => .finished

/-- How many steps the thread takes at most until it polls. -/
def Position.togo : Position → Nat
  | .polling => 0
  | .purgeBusy => 1
  | .purgeRunning => 2
  | .purgeSocket => 3
  | .purgeModule => 4
  | .loop => 5
  | .events _ => 6
  | .timedOut _ => 6
  | .callbacks queue _ => 7 + 3 * queue.length
  | .handling _ queue _ => 8 + 3 * queue.length
  | .started _ queue _ => 9 + 3 * queue.length
  | .left => 0
  | .finished => 0

/-- Whose step it is. -/
def Action.thread : Action → Option Nat
  | .check a => some a
  | .purge a => some a
  | .wake a _ => some a
  | .timeout a _ => some a
  | .run a => some a
  | .returns a _ => some a
  | .hangUp a _ => some a
  | .resume a => some a
  | .leave a => some a
  | .finish a => some a
  | .accept _ _ _ => none
  | .advance _ => none
  | .cleanupDeadAgents => none

/-- The step with which the thread of an agent goes on. The poll returns for what is queued. -/
def Action.goesOn (a : Nat) : Stage → Action → Bool
  | .loop, .check b => b = a
  | .purging, .purge b => b = a
  | .polling, .wake b true => b = a
  | .callbacks, .run b => b = a
  | .started, .run b => b = a
  | .handling, .returns b _ => b = a
  | .events, .resume b => b = a
  | .idle, .resume b => b = a
  | .expired, .leave b => b = a
  | .left, .finish b => b = a
  | _, _ => false

namespace World

variable (w : World)

/-! ## What is asked -/

def agentOf (d : Nat) : Agent := w.agents (w.dispatches d).agent

def invocationsOf (d : Nat) : List Invocation := w.invocations.filter (·.dispatch == d)

/-- With the module, the request and the socket of the dispatch. -/
def rightInvocation (d : Nat) : Invocation :=
  let dispatch := w.dispatches d
  ⟨d, some dispatch.module, some dispatch.request, some dispatch.socket⟩

/-- The dispatch goes on, or its callback waits for a thread that is in its loop. -/
def UnderWay (d : Nat) : Prop :=
  (w.agentOf d).inLoop = true ∧
    ((w.dispatches d).phase.rank < Phase.queued.rank ∨ d ∈ (w.agentOf d).pending)

instance (d : Nat) : Decidable (w.UnderWay d) := inferInstanceAs (Decidable (_ ∧ _))

/-- The dispatch is for the agent. -/
def Meant (a d : Nat) : Prop := d < w.accepted ∧ (w.dispatches d).agent = a

instance (a d : Nat) : Decidable (w.Meant a d) := inferInstanceAs (Decidable (_ ∧ _))

/-- The dispatch is for the agent, has got to `since`, and has not got to `before`. -/
def Between (a : Nat) (since before : Phase) (d : Nat) : Prop :=
  w.Meant a d ∧ since.rank ≤ (w.dispatches d).phase.rank ∧ (w.dispatches d).phase.rank < before.rank

instance (a : Nat) (since before : Phase) (d : Nat) : Decidable (w.Between a since before d) :=
  inferInstanceAs (Decidable (_ ∧ _))

/-- Every accepted request is run once. An agent is not idle from when it is marked busy until the
handler has returned. -/
structure RunsOnce : Prop where
  once : ∀ d < w.accepted, w.invocationsOf d = [] ∧ w.UnderWay d ∨
    w.invocationsOf d = [w.rightInvocation d]
  stays : ∀ d < w.accepted, w.invocationsOf d = [] → (w.agentOf d).inLoop = true
  busy : ∀ d < w.accepted, w.Between (w.dispatches d).agent .busy .returned d →
    (w.agentOf d).isIdle = false

/-- The next assignment of the dispatch overwrites nothing that another request has there that waits for
its callback, and the agent is not marked busy in the middle of `purge`. -/
def WritesFreely (d : Nat) : Phase → Prop
  | .chosen => (w.agentOf d).isPurging = false
  | .busy => ∀ e < w.accepted, w.Between (w.dispatches d).agent .module .invoked e →
      (w.dispatches e).module = (w.dispatches d).module
  | .module => ∀ e < w.accepted, w.Between (w.dispatches d).agent .socket .invoked e →
      (w.dispatches e).socket = (w.dispatches d).socket
  | .socket => ∀ e < w.accepted, w.Between (w.dispatches d).agent .request .invoked e →
      (w.dispatches e).request = (w.dispatches d).request
  | _ => True

instance (d : Nat) : (phase : Phase) → Decidable (w.WritesFreely d phase)
  | .chosen => inferInstanceAs (Decidable (_ = _))
  | .busy => inferInstanceAs (Decidable (∀ e < w.accepted, _ → _))
  | .module => inferInstanceAs (Decidable (∀ e < w.accepted, _ → _))
  | .socket => inferInstanceAs (Decidable (∀ e < w.accepted, _ → _))
  | .request => .isTrue trivial
  | .inserted => .isTrue trivial
  | .queued => .isTrue trivial
  | .invoked => .isTrue trivial
  | .returned => .isTrue trivial

/-- An agent is picked whose thread is going to stay in its loop, and its poll does not time out for good
while a request is being handed to it. The head of the loop does not take a request for finished that is
marked in the agent and whose callback has not run. Dispatches leave alone what other requests have, and a
running `purge`. -/
def Proper : Action → Prop
  | .accept _ _ _ => ∀ a ∈ w.idleAgent, (w.agents a).staysInLoop = true
  | .advance d => w.WritesFreely d (w.dispatches d).phase
  | .check a => w.Purges a → ∀ d < w.accepted, ¬ w.Between a .busy .invoked d
  | .timeout a expired => expired = true → w.TimesOut a →
      ∀ d < w.accepted, ¬ w.Between a .chosen .queued d
  | _ => True

instance : (action : Action) → Decidable (w.Proper action)
  | .accept _ _ _ => inferInstanceAs (Decidable (∀ a ∈ w.idleAgent, _))
  | .advance d => inferInstanceAs (Decidable (w.WritesFreely d _))
  | .check a => inferInstanceAs (Decidable (w.Purges a → ∀ d < w.accepted, _))
  | .timeout a expired =>
    inferInstanceAs (Decidable (expired = true → w.TimesOut a → ∀ d < w.accepted, _))
  | .purge _ => .isTrue trivial
  | .wake _ _ => .isTrue trivial
  | .run _ => .isTrue trivial
  | .returns _ _ => .isTrue trivial
  | .hangUp _ _ => .isTrue trivial
  | .resume _ => .isTrue trivial
  | .leave _ => .isTrue trivial
  | .finish _ => .isTrue trivial
  | .cleanupDeadAgents => .isTrue trivial

/-! ## The invariant -/

/-- What an agent has of the dispatches from `since` until they get to `before`. -/
def Keeps (a : Nat) (since before : Phase) (good : Dispatch → Prop) : Prop :=
  ∀ d, w.Between a since before d → good (w.dispatches d)

/-- Where the dispatches are written down from `since` until they get to `before`. -/
def Listed (a : Nat) (since before : Phase) (listed : Nat → Prop) : Prop :=
  ∀ d, listed d ↔ w.Between a since before d

/-- The fields of an agent are as the requests need them that are for it. -/
structure Fields (a : Nat) (agent : Agent) : Prop where
  busy : w.Keeps a .busy .returned fun _ => agent.mbBusy = true
  stays : w.Keeps a .chosen .invoked fun _ => agent.staysInLoop = true
  purging : w.Keeps a .busy .returned fun _ => agent.isPurging = false
  module : w.Keeps a .module .invoked fun dispatch => agent.mpSavedModule = some dispatch.module
  socket : w.Keeps a .socket .invoked fun dispatch => agent.mpSavedSocket = some dispatch.socket
  request : w.Keeps a .request .invoked fun dispatch => agent.maRequest = some dispatch.request

/-- An agent has the callbacks of the requests that are for it. -/
structure Callbacks (a : Nat) (agent : Agent) : Prop where
  queued : w.Listed a .queued .invoked fun d => d ∈ agent.pending
  once : agent.pending.Nodup
  running : w.Listed a .invoked .returned fun d => agent.running = some d

/-- The invocations are those of the dispatches that have got so far. -/
structure Recorded : Prop where
  invocations : ∀ d < w.accepted, w.invocationsOf d =
    if Phase.invoked.rank ≤ (w.dispatches d).phase.rank then [w.rightInvocation d] else []
  nobody : ∀ i ∈ w.invocations, i.dispatch < w.accepted

/-- The agents and the dispatches fit together. -/
structure Ordered : Prop where
  fields : ∀ a, w.Fields a (w.agents a)
  callbacks : ∀ a, w.Callbacks a (w.agents a)
  numbered : ∀ d < w.accepted, (w.dispatches d).agent < w.agentCount
  pool : ∀ a ∈ w.mpAgentsPool, a < w.agentCount

structure Inv : Prop where
  ordered : w.Ordered
  recorded : w.Recorded

variable {w} {w' : World} {a d : Nat} {since before phase : Phase} {good : Dispatch → Prop}
  {listed : Nat → Prop}

/-! ## Steps of a thread -/

theorem between_congr (hdispatches : w'.dispatches = w.dispatches) (haccepted : w'.accepted = w.accepted) :
    w'.Between a since before d ↔ w.Between a since before d := by
  unfold Between Meant
  rw [hdispatches, haccepted]

theorem Keeps.congr (h : w.Keeps a since before good) (hdispatches : w'.dispatches = w.dispatches)
    (haccepted : w'.accepted = w.accepted) : w'.Keeps a since before good := by
  intro d hd
  rw [hdispatches]
  exact h d ((between_congr hdispatches haccepted).mp hd)

theorem Listed.congr (h : w.Listed a since before listed) (hdispatches : w'.dispatches = w.dispatches)
    (haccepted : w'.accepted = w.accepted) : w'.Listed a since before listed := fun d =>
  (h d).trans (between_congr hdispatches haccepted).symm

theorem Fields.congr {agent : Agent} (h : w.Fields a agent) (hdispatches : w'.dispatches = w.dispatches)
    (haccepted : w'.accepted = w.accepted) : w'.Fields a agent where
  busy := h.busy.congr hdispatches haccepted
  stays := h.stays.congr hdispatches haccepted
  purging := h.purging.congr hdispatches haccepted
  module := h.module.congr hdispatches haccepted
  socket := h.socket.congr hdispatches haccepted
  request := h.request.congr hdispatches haccepted

theorem Callbacks.congr {agent : Agent} (h : w.Callbacks a agent)
    (hdispatches : w'.dispatches = w.dispatches) (haccepted : w'.accepted = w.accepted) :
    w'.Callbacks a agent where
  queued := h.queued.congr hdispatches haccepted
  once := h.once
  running := h.running.congr hdispatches haccepted

/-- What the invariant looks at of an agent has not changed. -/
structure Alike (x y : Agent) : Prop where
  busy : y.mbBusy = x.mbBusy
  module : y.mpSavedModule = x.mpSavedModule
  socket : y.mpSavedSocket = x.mpSavedSocket
  request : y.maRequest = x.maRequest
  pending : y.pending = x.pending
  running : y.running = x.running
  stays : x.staysInLoop = true → y.staysInLoop = true
  purging : x.isPurging = false → y.isPurging = false

theorem Fields.alike {x y : Agent} (h : w.Fields a x) (hxy : Alike x y) : w.Fields a y where
  busy d hd := hxy.busy.trans (h.busy d hd)
  stays d hd := hxy.stays (h.stays d hd)
  purging d hd := hxy.purging (h.purging d hd)
  module d hd := hxy.module.trans (h.module d hd)
  socket d hd := hxy.socket.trans (h.socket d hd)
  request d hd := hxy.request.trans (h.request d hd)

theorem Callbacks.of_eq {x y : Agent} (h : w.Callbacks a x) (hpending : y.pending = x.pending)
    (hrunning : y.running = x.running) : w.Callbacks a y where
  queued d := by
    rw [hpending]
    exact h.queued d
  once := by
    rw [hpending]
    exact h.once
  running d := by
    rw [hrunning]
    exact h.running d

/-- The agents are asked about one by one. -/
theorem forall_setAgent {P : Nat → Agent → Prop} (h : ∀ b, b ≠ a → P b (w.agents b)) {agent : Agent}
    (hnew : P a agent) (b : Nat) : P b ((w.setAgent a agent).agents b) := by
  by_cases hb : b = a
  · have hself : (w.setAgent a agent).agents a = agent := Function.update_self ..
    rw [hb, hself]
    exact hnew
  · have hother : (w.setAgent a agent).agents b = w.agents b := Function.update_of_ne hb ..
    rw [hother]
    exact h b hb

/-- The records of the world are not looked at. -/
theorem Ordered.congr (h : w.Ordered) (hagents : w'.agents = w.agents)
    (hdispatches : w'.dispatches = w.dispatches) (haccepted : w'.accepted = w.accepted)
    (hcount : w'.agentCount = w.agentCount) (hpool : ∀ a ∈ w'.mpAgentsPool, a ∈ w.mpAgentsPool) :
    w'.Ordered where
  fields a := by
    rw [hagents]
    exact (h.fields a).congr hdispatches haccepted
  callbacks a := by
    rw [hagents]
    exact (h.callbacks a).congr hdispatches haccepted
  numbered d hd := by
    rw [haccepted] at hd
    rw [hdispatches, hcount]
    exact h.numbered d hd
  pool a ha := by
    rw [hcount]
    exact h.pool a (hpool a ha)

theorem Recorded.congr (h : w.Recorded) (hdispatches : w'.dispatches = w.dispatches)
    (haccepted : w'.accepted = w.accepted) (hinvocations : w'.invocations = w.invocations) :
    w'.Recorded where
  invocations d hd := by
    rw [haccepted] at hd
    unfold invocationsOf rightInvocation
    rw [hinvocations, hdispatches]
    exact h.invocations d hd
  nobody i hi := by
    rw [hinvocations] at hi
    rw [haccepted]
    exact h.nobody i hi

theorem Ordered.setAgent (h : w.Ordered) {agent : Agent} (hfields : w.Fields a agent)
    (hcallbacks : w.Callbacks a agent) : (w.setAgent a agent).Ordered where
  fields b := (forall_setAgent (fun b _ => h.fields b) hfields b).congr rfl rfl
  callbacks b := (forall_setAgent (fun b _ => h.callbacks b) hcallbacks b).congr rfl rfl
  numbered := h.numbered
  pool := h.pool

/-- **A step of a thread.** -/
theorem Inv.setAgent (h : w.Inv) {agent : Agent} (hfields : w.Fields a agent)
    (hcallbacks : w.Callbacks a agent) : (w.setAgent a agent).Inv :=
  ⟨h.ordered.setAgent hfields hcallbacks, h.recorded.congr rfl rfl rfl⟩

theorem Inv.setAgent_alike (h : w.Inv) {agent : Agent} (hxy : Alike (w.agents a) agent) :
    (w.setAgent a agent).Inv :=
  h.setAgent ((h.ordered.fields a).alike hxy)
    ((h.ordered.callbacks a).of_eq hxy.pending hxy.running)

/-! ## Steps of a dispatch -/

theorem rank_injective : Function.Injective Phase.rank := by
  intro phase phase' h
  cases phase <;> cases phase' <;> first | rfl | exact absurd h (by decide)

theorem dispatches_setPhase_self :
    (w.setPhase d phase).dispatches d = { w.dispatches d with phase := phase } :=
  Function.update_self ..

theorem dispatches_setPhase_of_ne {e : Nat} (he : e ≠ d) :
    (w.setPhase d phase).dispatches e = w.dispatches e := Function.update_of_ne he ..

theorem agent_setPhase (e : Nat) :
    ((w.setPhase d phase).dispatches e).agent = (w.dispatches e).agent := by
  by_cases he : e = d
  · rw [he, dispatches_setPhase_self]
  · rw [dispatches_setPhase_of_ne he]

theorem between_setPhase_self : (w.setPhase d phase).Between a since before d ↔
    w.Meant a d ∧ since.rank ≤ phase.rank ∧ phase.rank < before.rank := by
  unfold Between Meant
  rw [dispatches_setPhase_self]
  exact Iff.rfl

theorem between_setPhase_of_ne {e : Nat} (he : e ≠ d) :
    (w.setPhase d phase).Between a since before e ↔ w.Between a since before e := by
  unfold Between Meant
  rw [dispatches_setPhase_of_ne he]
  exact Iff.rfl

/-- A dispatch goes on by one. Where it gets to `since`, what is kept from there on has been made so. -/
theorem Keeps.setPhase (h : w.Keeps a since before good)
    (hgood : ∀ dispatch, good dispatch → good { dispatch with phase := phase })
    (hnext : phase.rank = (w.dispatches d).phase.rank + 1)
    (hnew : w.Meant a d → phase = since → good (w.dispatches d)) :
    (w.setPhase d phase).Keeps a since before good := by
  intro e he
  by_cases hed : e = d
  · subst hed
    obtain ⟨hmeant, hsince, hbefore⟩ := between_setPhase_self.mp he
    rw [dispatches_setPhase_self]
    apply hgood
    by_cases hphase : phase = since
    · exact hnew hmeant hphase
    · have hne : phase.rank ≠ since.rank := fun heq => hphase (rank_injective heq)
      apply h
      exact ⟨hmeant, by omega, by omega⟩
  · rw [dispatches_setPhase_of_ne hed]
    exact h e ((between_setPhase_of_ne hed).mp he)

/-- The fields of the agent of the dispatch, and of all others. -/
theorem Fields.setPhase {agent : Agent} (h : w.Fields a agent)
    (hnext : phase.rank = (w.dispatches d).phase.rank + 1)
    (hbusy : w.Meant a d → phase = .busy → agent.mbBusy = true)
    (hpurging : w.Meant a d → phase = .busy → agent.isPurging = false)
    (hmodule : w.Meant a d → phase = .module → agent.mpSavedModule = some (w.dispatches d).module)
    (hsocket : w.Meant a d → phase = .socket → agent.mpSavedSocket = some (w.dispatches d).socket)
    (hrequest : w.Meant a d → phase = .request → agent.maRequest = some (w.dispatches d).request) :
    (w.setPhase d phase).Fields a agent where
  busy := h.busy.setPhase (fun _ hgood => hgood) hnext hbusy
  stays := h.stays.setPhase (fun _ hgood => hgood) hnext fun _ hphase => by
    rw [hphase] at hnext
    exact absurd hnext (Nat.succ_ne_zero _).symm
  purging := h.purging.setPhase (fun _ hgood => hgood) hnext hpurging
  module := h.module.setPhase (fun _ hgood => hgood) hnext hmodule
  socket := h.socket.setPhase (fun _ hgood => hgood) hnext hsocket
  request := h.request.setPhase (fun _ hgood => hgood) hnext hrequest

/-- The fields have been written by then. -/
theorem Fields.setPhase_late {agent : Agent} (h : w.Fields a agent)
    (hnext : phase.rank = (w.dispatches d).phase.rank + 1) (hlate : Phase.queued.rank ≤ phase.rank) :
    (w.setPhase d phase).Fields a agent := by
  apply h.setPhase hnext
  all_goals
    rintro - rfl
    exact absurd hlate (by decide)

theorem Listed.setPhase {listed' : Nat → Prop} (h : w.Listed a since before listed)
    (hothers : ∀ e, e ≠ d → (listed' e ↔ listed e))
    (hself : listed' d ↔ w.Meant a d ∧ since.rank ≤ phase.rank ∧ phase.rank < before.rank) :
    (w.setPhase d phase).Listed a since before listed' := by
  intro e
  by_cases hed : e = d
  · rw [hed, between_setPhase_self]
    exact hself
  · rw [between_setPhase_of_ne hed, hothers e hed]
    exact h e

/-- A dispatch goes on that is not written down, and will not be. -/
theorem Listed.setPhase_outside (h : w.Listed a since before listed)
    (hold : ¬ w.Between a since before d)
    (hnew : ¬ (w.Meant a d ∧ since.rank ≤ phase.rank ∧ phase.rank < before.rank)) :
    (w.setPhase d phase).Listed a since before listed :=
  h.setPhase (fun _ _ => Iff.rfl) ((h d).trans (iff_of_false hold hnew))

theorem Callbacks.setPhase_of_not_meant {agent : Agent} (h : w.Callbacks a agent)
    (hnot : ¬ w.Meant a d) : (w.setPhase d phase).Callbacks a agent where
  queued := h.queued.setPhase_outside (fun hd => hnot hd.1) fun hd => hnot hd.1
  once := h.once
  running := h.running.setPhase_outside (fun hd => hnot hd.1) fun hd => hnot hd.1

/-- A dispatch goes on whose callback was not queued yet. -/
theorem Callbacks.setPhase_early {agent : Agent} (h : w.Callbacks a agent)
    (hbefore : (w.dispatches d).phase.rank < Phase.queued.rank)
    (hphase : phase.rank < Phase.queued.rank) : (w.setPhase d phase).Callbacks a agent where
  queued := h.queued.setPhase_outside (fun hd => Nat.not_le_of_lt hbefore hd.2.1)
    fun hd => Nat.not_le_of_lt hphase hd.2.1
  once := h.once
  running := h.running.setPhase_outside
    (fun hd => Nat.not_le_of_lt (Nat.lt_succ_of_lt hbefore) hd.2.1)
    fun hd => Nat.not_le_of_lt (Nat.lt_succ_of_lt hphase) hd.2.1

/-- The callback is queued. -/
theorem Callbacks.queue {agent : Agent} (h : w.Callbacks (w.dispatches d).agent agent)
    (hd : d < w.accepted) (hphase : (w.dispatches d).phase = .inserted) :
    (w.setPhase d .queued).Callbacks (w.dispatches d).agent
      { agent with newCallbacks := agent.newCallbacks ++ [d] } := by
  have hpending : { agent with newCallbacks := agent.newCallbacks ++ [d] }.pending =
      agent.pending ++ [d] := (List.append_assoc ..).symm
  have hnot : d ∉ agent.pending := by
    intro hmem
    have hsince := ((h.queued d).mp hmem).2.1
    rw [hphase] at hsince
    exact absurd hsince (by decide)
  constructor
  · rw [hpending]
    apply h.queued.setPhase
    · intro e he
      rw [List.mem_append, List.mem_singleton]
      exact or_iff_left he
    · have hmem : d ∈ agent.pending ++ [d] := List.mem_append_right _ (List.mem_singleton_self d)
      exact iff_of_true hmem ⟨⟨hd, rfl⟩, by decide, by decide⟩
  · rw [hpending]
    rw [← List.concat_eq_append]
    exact List.Nodup.concat hnot h.once
  · apply h.running.setPhase_outside
    · intro hold
      have hsince := hold.2.1
      rw [hphase] at hsince
      exact absurd hsince (by decide)
    · intro hnew
      exact absurd hnew.2.1 (by decide)

/-- The first callback runs. -/
theorem Callbacks.invoke {x y : Agent} (h : w.Callbacks a x) (hpending : x.pending = d :: y.pending)
    (hidle : x.running = none) (hrunning : y.running = some d) :
    (w.setPhase d .invoked).Callbacks a y := by
  have hbetween : w.Between a .queued .invoked d := by
    apply (h.queued d).mp
    rw [hpending]
    exact List.mem_cons_self
  have honce := h.once
  rw [hpending, List.nodup_cons] at honce
  constructor
  · apply h.queued.setPhase
    · intro e he
      rw [hpending, List.mem_cons]
      exact (or_iff_right he).symm
    · exact iff_of_false honce.1 fun hnew => absurd hnew.2.2 (by decide)
  · exact honce.2
  · apply h.running.setPhase
    · intro e he
      rw [hrunning, hidle]
      exact iff_of_false (fun heq => he (Option.some.inj heq).symm) nofun
    · exact iff_of_true hrunning ⟨hbetween.1, by decide, by decide⟩

/-- The handler returns. -/
theorem Callbacks.return {x y : Agent} (h : w.Callbacks a x) (hpending : y.pending = x.pending)
    (hrunning : x.running = some d) (hidle : y.running = none) :
    (w.setPhase d .returned).Callbacks a y := by
  have hbetween := (h.running d).mp hrunning
  constructor
  · rw [hpending]
    apply h.queued.setPhase_outside
    · intro hold
      exact Nat.not_le_of_lt hold.2.2 hbetween.2.1
    · intro hnew
      exact absurd hnew.2.2 (by decide)
  · rw [hpending]
    exact h.once
  · apply h.running.setPhase
    · intro e he
      rw [hrunning, hidle]
      exact iff_of_false nofun fun heq => he (Option.some.inj heq).symm
    · rw [hidle]
      exact iff_of_false nofun fun hnew => absurd hnew.2.2 (by decide)

/-- **A step of a dispatch**, with its agent. -/
theorem Ordered.step (h : w.Ordered) {agent : Agent}
    (hfields : (w.setPhase d phase).Fields (w.dispatches d).agent agent)
    (hcallbacks : (w.setPhase d phase).Callbacks (w.dispatches d).agent agent)
    (hnext : phase.rank = (w.dispatches d).phase.rank + 1) :
    ((w.setAgent (w.dispatches d).agent agent).setPhase d phase).Ordered where
  fields b := by
    have hall : (w.setPhase d phase).Fields b ((w.setAgent (w.dispatches d).agent agent).agents b) := by
      refine forall_setAgent (fun b hb => ?_) hfields b
      have hnot : ¬ w.Meant b d := fun hmeant => hb hmeant.2.symm
      exact (h.fields b).setPhase hnext (fun hmeant => absurd hmeant hnot)
        (fun hmeant => absurd hmeant hnot) (fun hmeant => absurd hmeant hnot)
        (fun hmeant => absurd hmeant hnot) fun hmeant => absurd hmeant hnot
    exact hall.congr rfl rfl
  callbacks b := by
    have hall : (w.setPhase d phase).Callbacks b
        ((w.setAgent (w.dispatches d).agent agent).agents b) := by
      refine forall_setAgent (fun b hb => ?_) hcallbacks b
      exact (h.callbacks b).setPhase_of_not_meant fun hmeant => hb hmeant.2.symm
    exact hall.congr rfl rfl
  numbered e he := by
    show (((w.setPhase d phase).dispatches e).agent) < w.agentCount
    rw [agent_setPhase]
    exact h.numbered e he
  pool := h.pool

/-- A step before the handler is invoked, or after it, adds no invocation. -/
theorem Recorded.setPhase (h : w.Recorded) (hrank : Phase.invoked.rank ≤ phase.rank ↔
    Phase.invoked.rank ≤ (w.dispatches d).phase.rank) : (w.setPhase d phase).Recorded where
  invocations e he := by
    show w.invocationsOf e = _
    rw [h.invocations e he]
    by_cases hed : e = d
    · rw [hed]
      have hright : (w.setPhase d phase).rightInvocation d = w.rightInvocation d := by
        rw [rightInvocation, dispatches_setPhase_self]
        rfl
      rw [hright, dispatches_setPhase_self]
      exact if_congr hrank.symm rfl rfl
    · have hright : (w.setPhase d phase).rightInvocation e = w.rightInvocation e := by
        rw [rightInvocation, dispatches_setPhase_of_ne hed]
        rfl
      rw [hright, dispatches_setPhase_of_ne hed]
  nobody := h.nobody

/-- A step before the callback is queued. -/
theorem Inv.step_early (h : w.Inv) {agent : Agent} (hfields : w.Fields (w.dispatches d).agent agent)
    (hnext : phase.rank = (w.dispatches d).phase.rank + 1) (hphase : phase.rank < Phase.queued.rank)
    (hpending : agent.pending = (w.agentOf d).pending)
    (hrunning : agent.running = (w.agentOf d).running)
    (hbusy : phase = .busy → agent.mbBusy = true)
    (hpurging : phase = .busy → agent.isPurging = false)
    (hmodule : phase = .module → agent.mpSavedModule = some (w.dispatches d).module)
    (hsocket : phase = .socket → agent.mpSavedSocket = some (w.dispatches d).socket)
    (hrequest : phase = .request → agent.maRequest = some (w.dispatches d).request) :
    ((w.setAgent (w.dispatches d).agent agent).setPhase d phase).Inv := by
  have hbefore : (w.dispatches d).phase.rank < Phase.queued.rank := by omega
  have hcallbacks : w.Callbacks (w.dispatches d).agent agent :=
    (h.ordered.callbacks _).of_eq hpending hrunning
  have hinvoked : Phase.queued.rank < Phase.invoked.rank := by decide
  constructor
  · exact h.ordered.step (hfields.setPhase hnext (fun _ => hbusy) (fun _ => hpurging)
      (fun _ => hmodule) (fun _ => hsocket) fun _ => hrequest) (hcallbacks.setPhase_early hbefore hphase) hnext
  · apply Recorded.setPhase
    · exact h.recorded.congr rfl rfl rfl
    · show Phase.invoked.rank ≤ phase.rank ↔ Phase.invoked.rank ≤ (w.dispatches d).phase.rank
      omega

theorem Inv.advance (h : w.Inv) (hd : d < w.accepted)
    (hproper : w.WritesFreely d (w.dispatches d).phase) : (w.advance d).Inv := by
  have hold := h.ordered.fields (w.dispatches d).agent
  unfold World.advance
  dsimp only
  cases hphase : (w.dispatches d).phase with
  | chosen =>
    rw [hphase] at hproper
    apply h.step_early
    · exact { hold with busy := fun _ _ => rfl }
    case hpurging => exact fun _ => hproper
    all_goals simp [hphase, Phase.rank, Agent.pending, Agent.taken, Agent.running, agentOf]
  | busy =>
    rw [hphase] at hproper
    apply h.step_early
    · exact { hold with module := fun e he => congrArg some (hproper e he.1.1 he).symm }
    all_goals simp [hphase, Phase.rank, Agent.pending, Agent.taken, Agent.running, agentOf]
  | module =>
    rw [hphase] at hproper
    apply h.step_early
    · exact { hold with socket := fun e he => congrArg some (hproper e he.1.1 he).symm }
    all_goals simp [hphase, Phase.rank, Agent.pending, Agent.taken, Agent.running, agentOf]
  | socket =>
    rw [hphase] at hproper
    apply h.step_early
    · exact { hold with request := fun e he => congrArg some (hproper e he.1.1 he).symm }
    all_goals simp [hphase, Phase.rank, Agent.pending, Agent.taken, Agent.running, agentOf]
  | request =>
    apply h.step_early
    · exact { hold with }
    all_goals simp [hphase, Phase.rank, Agent.pending, Agent.taken, Agent.running, agentOf]
  | inserted =>
    constructor
    · apply h.ordered.step
      · exact Fields.setPhase_late { hold with } (by rw [hphase]; rfl) (by decide)
      · exact (h.ordered.callbacks _).queue hd hphase
      · rw [hphase]
        rfl
    · apply Recorded.setPhase
      · exact h.recorded.congr rfl rfl rfl
      · show Phase.invoked.rank ≤ Phase.queued.rank ↔
          Phase.invoked.rank ≤ (w.dispatches d).phase.rank
        rw [hphase]
        decide
  | queued => exact h
  | invoked => exact h
  | returned => exact h

/-! ## A thread goes on -/

theorem pending_of {x : Agent} {position : Position} (h : x.position = position) :
    { x with position := position }.pending = x.pending := by
  rw [← h]

theorem running_of {x : Agent} {position : Position} (h : x.position = position) :
    { x with position := position }.running = x.running := by
  rw [← h]

/-- A move that leaves the callbacks as they are. -/
theorem Inv.move (h : w.Inv) {position after : Position} (hposition : (w.agents a).position = position)
    (hpending : { w.agents a with position := after }.pending =
      { w.agents a with position := position }.pending)
    (hrunning : { w.agents a with position := after }.running =
      { w.agents a with position := position }.running)
    (hin : { w.agents a with position := after }.staysInLoop = true)
    (hpurging : { w.agents a with position := after }.isPurging = false) :
    (w.setPosition a after).Inv := by
  apply h.setAgent_alike
  exact ⟨rfl, rfl, rfl, rfl, hpending.trans (pending_of hposition),
    hrunning.trans (running_of hposition), fun _ => hin, fun _ => hpurging⟩

/-- At the head of the loop no handler is running, so that what has been invoked has returned. -/
theorem Inv.check (h : w.Inv)
    (hproper : w.Purges a → ∀ d < w.accepted, ¬ w.Between a .busy .invoked d) : (w.check a).Inv := by
  have hfields := h.ordered.fields a
  have hcallbacks := h.ordered.callbacks a
  unfold World.check
  split
  · rename_i hposition
    have hpending := pending_of hposition
    have hrunning := running_of hposition
    split
    · rename_i hpurges
      have hnone : ∀ d, ¬ w.Between a .busy .returned d := by
        intro d hd
        by_cases hearly : (w.dispatches d).phase.rank < Phase.invoked.rank
        · exact hproper hpurges d hd.1.1 ⟨hd.1, hd.2.1, hearly⟩
        · have hmine := (hcallbacks.running d).mpr ⟨hd.1, Nat.le_of_not_lt hearly, hd.2.2⟩
          rw [Agent.running, hposition] at hmine
          cases hmine
      apply h.setAgent
      · exact { hfields with
          stays := fun _ _ => rfl
          purging := fun d hd => absurd hd (hnone d) }
      · exact hcallbacks.of_eq hpending hrunning
    · exact h.move hposition rfl rfl rfl rfl
  · exact h

/-- While the fields are cleared, no request is marked in the agent. -/
theorem Fields.not_between (h : w.Fields a (w.agents a)) (hpurging : (w.agents a).isPurging = true) :
    ¬ w.Between a .busy .returned d := by
  intro hd
  rw [h.purging d hd] at hpurging
  cases hpurging

theorem between_mono {since' before' : Phase} (h : w.Between a since before d)
    (hsince : since'.rank ≤ since.rank) (hbefore : before.rank ≤ before'.rank) :
    w.Between a since' before' d := by
  obtain ⟨hmeant, hold, hnew⟩ := h
  exact ⟨hmeant, Nat.le_trans hsince hold, Nat.lt_of_lt_of_le hnew hbefore⟩

/-- An assignment of `purge`. -/
theorem Inv.clear (h : w.Inv) {agent : Agent} (hpurging : (w.agents a).isPurging = true)
    (hstays : agent.staysInLoop = true) (hpending : agent.pending = (w.agents a).pending)
    (hrunning : agent.running = (w.agents a).running) : (w.setAgent a agent).Inv := by
  have hnone : ∀ {since before : Phase} {d : Nat}, Phase.busy.rank ≤ since.rank →
      before.rank ≤ Phase.returned.rank → ¬ w.Between a since before d :=
    fun hsince hbefore hd => (h.ordered.fields a).not_between hpurging (between_mono hd hsince hbefore)
  apply h.setAgent
  · exact {
      busy := fun d hd => absurd hd (hnone (by decide) (by decide))
      stays := fun _ _ => hstays
      purging := fun d hd => absurd hd (hnone (by decide) (by decide))
      module := fun d hd => absurd hd (hnone (by decide) (by decide))
      socket := fun d hd => absurd hd (hnone (by decide) (by decide))
      request := fun d hd => absurd hd (hnone (by decide) (by decide)) }
  · exact (h.ordered.callbacks a).of_eq hpending hrunning

theorem Inv.purge (h : w.Inv) : (w.purge a).Inv := by
  have hpurging : ∀ position, (w.agents a).position = position →
      position ∈ [.purgeModule, .purgeSocket, .purgeRunning, .purgeBusy] →
        (w.agents a).isPurging = true := by
    rintro _ rfl hmem
    exact decide_eq_true hmem
  unfold World.purge
  dsimp only
  split
  · rename_i hposition
    exact h.clear (hpurging _ hposition (by decide)) rfl (pending_of hposition) (running_of hposition)
  · rename_i hposition
    exact h.clear (hpurging _ hposition (by decide)) rfl (pending_of hposition) (running_of hposition)
  · rename_i hposition
    exact h.clear (hpurging _ hposition (by decide)) rfl (pending_of hposition) (running_of hposition)
  · rename_i hposition
    exact h.clear (hpurging _ hposition (by decide)) rfl (pending_of hposition) (running_of hposition)
  · exact h

theorem Inv.wake (h : w.Inv) (pipe : Bool) : (w.wake a pipe).Inv := by
  unfold World.wake
  dsimp only
  split
  · rename_i hposition
    cases pipe with
    | true =>
      apply h.setAgent_alike
      have hpending : (w.agents a).newCallbacks ++ [] = (w.agents a).pending :=
        (List.append_nil _).trans (pending_of hposition)
      exact ⟨rfl, rfl, rfl, rfl, hpending, running_of hposition, fun _ => rfl, fun _ => rfl⟩
    | false => exact h.move hposition rfl rfl rfl rfl
  · exact h

/-- An agent whose poll times out has no callbacks, so that a request for it that was not run is still
being handed to it. -/
theorem Inv.timeout (h : w.Inv) {expired : Bool} (hproper : expired = true → w.TimesOut a →
    ∀ d < w.accepted, ¬ w.Between a .chosen .queued d) : (w.timeout a expired).Inv := by
  unfold World.timeout
  split
  · rename_i hquiet
    have hposition := hquiet.1
    have hpending := pending_of hposition
    have hrunning := running_of hposition
    cases expired with
    | false => exact h.move hposition rfl rfl rfl rfl
    | true =>
      have hempty : (w.agents a).pending = [] := by
        rw [Agent.pending, Agent.taken, hposition, hquiet.2.2]
        rfl
      have hnone : ∀ d, ¬ w.Between a .chosen .invoked d := by
        intro d hd
        by_cases hqueued : (w.dispatches d).phase.rank < Phase.queued.rank
        · exact hproper rfl hquiet d hd.1.1 ⟨hd.1, hd.2.1, hqueued⟩
        · have hmem := ((h.ordered.callbacks a).queued d).mpr ⟨hd.1, Nat.le_of_not_lt hqueued, hd.2.2⟩
          rw [hempty] at hmem
          cases hmem
      apply h.setAgent
      · exact { h.ordered.fields a with
          stays := fun d hd => absurd hd (hnone d)
          purging := fun _ _ => rfl }
      · exact (h.ordered.callbacks a).of_eq hpending hrunning
  · exact h

theorem Inv.resume (h : w.Inv) : (w.resume a).Inv := by
  unfold World.resume
  split
  · rename_i hposition
    exact h.move hposition rfl rfl rfl rfl
  · rename_i hposition
    exact h.move hposition rfl rfl rfl rfl
  · exact h

theorem Inv.hangUp (h : w.Inv) (socket : Nat) : (w.hangUp a socket).Inv := by
  unfold World.hangUp
  dsimp only
  split
  · rename_i sockets hposition
    split
    · have hset : (w.setAgent a { w.agents a with
          pollSockets := (w.agents a).pollSockets.erase socket
          position := .events (sockets.erase socket) }).Inv := by
        apply h.setAgent_alike
        exact ⟨rfl, rfl, rfl, rfl, pending_of hposition, running_of hposition, fun _ => rfl, fun _ => rfl⟩
      exact ⟨hset.ordered.congr rfl rfl rfl rfl fun _ hb => hb, hset.recorded.congr rfl rfl rfl⟩
    · exact h
  · exact h

theorem Inv.leave (h : w.Inv) : (w.leave a).Inv := by
  unfold World.leave
  split
  · rename_i hposition
    have hpending := pending_of hposition
    have hrunning := running_of hposition
    apply h.setAgent_alike
    refine ⟨rfl, rfl, rfl, rfl, hpending, hrunning, fun hstays => ?_, fun _ => rfl⟩
    rw [Agent.staysInLoop, Agent.inLoop, hposition] at hstays
    exact absurd hstays (by decide)
  · exact h

theorem Inv.finish (h : w.Inv) : (w.finish a).Inv := by
  unfold World.finish
  split
  · rename_i hposition
    have hpending := pending_of hposition
    have hrunning := running_of hposition
    apply h.setAgent_alike
    refine ⟨rfl, rfl, rfl, rfl, hpending, hrunning, fun hstays => ?_, fun _ => rfl⟩
    rw [Agent.staysInLoop, Agent.inLoop, hposition] at hstays
    exact absurd hstays (by decide)
  · exact h

/-! ## A request is accepted -/

theorem dispatches_dispatchTo_self (module request socket : Nat) :
    (w.dispatchTo a module request socket).dispatches w.accepted =
      ⟨a, module, request, socket, .chosen⟩ := Function.update_self ..

theorem dispatches_dispatchTo_of_lt {e : Nat} (he : e < w.accepted) (module request socket : Nat) :
    (w.dispatchTo a module request socket).dispatches e = w.dispatches e :=
  Function.update_of_ne (Nat.ne_of_lt he) ..

theorem between_dispatchTo_of_lt {b e : Nat} (he : e < w.accepted) (module request socket : Nat) :
    (w.dispatchTo a module request socket).Between b since before e ↔ w.Between b since before e := by
  unfold Between Meant
  rw [dispatches_dispatchTo_of_lt he]
  exact and_congr_left fun _ => and_congr_left fun _ =>
    iff_of_true (Nat.lt_succ_of_lt he) he

/-- The new dispatch is asked of what is kept from the start. -/
theorem Keeps.dispatchTo {b : Nat} (h : w.Keeps b since before good) {module request socket : Nat}
    (hnew : a = b → since.rank = 0 → good ⟨a, module, request, socket, .chosen⟩) :
    (w.dispatchTo a module request socket).Keeps b since before good := by
  intro e he
  rcases Nat.lt_succ_iff_lt_or_eq.mp he.1.1 with hlt | rfl
  · rw [dispatches_dispatchTo_of_lt hlt]
    exact h e ((between_dispatchTo_of_lt hlt module request socket).mp he)
  · obtain ⟨⟨-, hb⟩, hsince, -⟩ := he
    rw [dispatches_dispatchTo_self] at hb hsince ⊢
    exact hnew hb (Nat.le_zero.mp hsince)

theorem Listed.dispatchTo {b : Nat} (h : w.Listed b since before listed) (hsince : 0 < since.rank)
    (module request socket : Nat) :
    (w.dispatchTo a module request socket).Listed b since before listed := by
  intro e
  rw [h e]
  by_cases hlt : e < w.accepted
  · exact (between_dispatchTo_of_lt hlt module request socket).symm
  · apply iff_of_false
    · exact fun hold => hlt hold.1.1
    · rintro ⟨⟨he, -⟩, hrank, -⟩
      rcases Nat.lt_succ_iff_lt_or_eq.mp he with he | rfl
      · exact hlt he
      · rw [dispatches_dispatchTo_self] at hrank
        exact Nat.not_le_of_lt hsince hrank

theorem Ordered.dispatchTo (h : w.Ordered) (ha : a < w.agentCount)
    (hstays : (w.agents a).staysInLoop = true) (module request socket : Nat) :
    (w.dispatchTo a module request socket).Ordered where
  fields b :=
    { busy := (h.fields b).busy.dispatchTo fun _ hzero => nomatch hzero
      stays := (h.fields b).stays.dispatchTo fun hb _ => hb ▸ hstays
      purging := (h.fields b).purging.dispatchTo fun _ hzero => nomatch hzero
      module := (h.fields b).module.dispatchTo fun _ hzero => nomatch hzero
      socket := (h.fields b).socket.dispatchTo fun _ hzero => nomatch hzero
      request := (h.fields b).request.dispatchTo fun _ hzero => nomatch hzero }
  callbacks b :=
    { queued := (h.callbacks b).queued.dispatchTo (by decide) module request socket
      once := (h.callbacks b).once
      running := (h.callbacks b).running.dispatchTo (by decide) module request socket }
  numbered e he := by
    rcases Nat.lt_succ_iff_lt_or_eq.mp he with he | rfl
    · rw [dispatches_dispatchTo_of_lt he]
      exact h.numbered e he
    · rw [dispatches_dispatchTo_self]
      exact ha
  pool := h.pool

theorem Recorded.dispatchTo (h : w.Recorded) (module request socket : Nat) :
    (w.dispatchTo a module request socket).Recorded where
  invocations e he := by
    show w.invocationsOf e = _
    rcases Nat.lt_succ_iff_lt_or_eq.mp he with he | rfl
    · have hright : (w.dispatchTo a module request socket).rightInvocation e = w.rightInvocation e := by
        rw [rightInvocation, dispatches_dispatchTo_of_lt he]
        rfl
      rw [hright, dispatches_dispatchTo_of_lt he]
      exact h.invocations e he
    · have hearly : ¬ Phase.invoked.rank ≤ Phase.chosen.rank := by decide
      rw [dispatches_dispatchTo_self, if_neg hearly]
      apply List.filter_eq_nil_iff.mpr
      intro i hi
      have hlt := h.nobody i hi
      rw [beq_iff_eq]
      exact Nat.ne_of_lt hlt
  nobody i hi := Nat.lt_succ_of_lt (h.nobody i hi)

/-- No dispatch is for an agent that is not there yet. -/
theorem Ordered.newAgent (h : w.Ordered) : w.newAgent.Ordered := by
  have hnone : ∀ since before d, ¬ w.Between w.agentCount since before d :=
    fun _ _ d hd => Nat.ne_of_lt (h.numbered d hd.1.1) hd.1.2
  have hset : (w.setAgent w.agentCount .new).Ordered := by
    apply h.setAgent
    · constructor
      all_goals exact fun d hd => absurd hd (hnone _ _ d)
    · constructor
      · exact fun d => iff_of_false List.not_mem_nil (hnone _ _ d)
      · exact List.nodup_nil
      · exact fun d => iff_of_false nofun (hnone _ _ d)
  constructor
  · exact fun b => (hset.fields b).congr rfl rfl
  · exact fun b => (hset.callbacks b).congr rfl rfl
  · exact fun d hd => Nat.lt_succ_of_lt (h.numbered d hd)
  · intro b hb
    rcases List.mem_append.mp hb with hb | hb
    · exact Nat.lt_succ_of_lt (h.pool b hb)
    · rw [List.mem_singleton.mp hb]
      exact Nat.lt_succ_self _

theorem Inv.accept (h : w.Inv) (hproper : ∀ a ∈ w.idleAgent, (w.agents a).staysInLoop = true)
    (module request socket : Nat) : (w.accept module request socket).Inv := by
  unfold World.accept
  split
  · rename_i a hidle
    have hmem := h.ordered.pool a (List.mem_of_find?_eq_some hidle)
    exact ⟨h.ordered.dispatchTo hmem (hproper a hidle) module request socket,
      h.recorded.dispatchTo module request socket⟩
  · have hstays : (w.newAgent.agents w.agentCount).staysInLoop = true := by
      have hnew : w.newAgent.agents w.agentCount = .new := Function.update_self ..
      rw [hnew]
      rfl
    have hrecorded : w.newAgent.Recorded := h.recorded.congr rfl rfl rfl
    exact ⟨h.ordered.newAgent.dispatchTo (Nat.lt_succ_self _) hstays module request socket,
      hrecorded.dispatchTo module request socket⟩

/-! ## The callback runs -/

theorem phase_of_between (h : w.Between a since before d) (hnext : before.rank = since.rank + 1) :
    (w.dispatches d).phase = since := by
  obtain ⟨-, hsince, hbefore⟩ := h
  apply rank_injective
  omega

/-- The handler is invoked with what it should be. -/
theorem Recorded.invoke (h : w.Recorded) (hd : d < w.accepted) (hphase : (w.dispatches d).phase = .queued)
    (hdispatches : w'.dispatches = (w.setPhase d .invoked).dispatches)
    (haccepted : w'.accepted = w.accepted)
    (hinvocations : w'.invocations = w.invocations ++ [w.rightInvocation d]) : w'.Recorded where
  invocations e he := by
    rw [haccepted] at he
    have hright : w'.rightInvocation e = w.rightInvocation e := by
      unfold rightInvocation
      rw [hdispatches]
      by_cases hed : e = d
      · rw [hed, dispatches_setPhase_self]
      · rw [dispatches_setPhase_of_ne hed]
    have happend : w'.invocationsOf e =
        w.invocationsOf e ++ [w.rightInvocation d].filter (·.dispatch == e) := by
      unfold invocationsOf
      rw [hinvocations, List.filter_append]
    rw [happend, hright, hdispatches]
    by_cases hed : e = d
    · have hnone : w.invocationsOf d = [] := by
        rw [h.invocations d hd, hphase]
        rfl
      have hmine : [w.rightInvocation d].filter (·.dispatch == d) = [w.rightInvocation d] := by
        simp [rightInvocation]
      rw [hed, dispatches_setPhase_self, hnone, hmine]
      rfl
    · have hothers : [w.rightInvocation d].filter (·.dispatch == e) = [] := by
        simp [rightInvocation, Ne.symm hed]
      rw [dispatches_setPhase_of_ne hed, hothers, List.append_nil]
      exact h.invocations e he
  nobody i hi := by
    rw [hinvocations] at hi
    rw [haccepted]
    rcases List.mem_append.mp hi with hi | hi
    · exact h.nobody i hi
    · rw [List.mem_singleton.mp hi]
      exact hd

theorem Inv.run (h : w.Inv) : (w.run a).Inv := by
  have hfields := h.ordered.fields a
  have hcallbacks := h.ordered.callbacks a
  unfold World.run
  dsimp only
  split
  · rename_i sockets hposition
    exact h.move hposition rfl rfl rfl rfl
  · rename_i callback queue sockets hposition
    apply h.setAgent_alike
    exact ⟨rfl, rfl, rfl, rfl, pending_of hposition, running_of hposition, fun _ => rfl, fun _ => rfl⟩
  · rename_i callback queue sockets hposition
    have hpending : (w.agents a).pending = callback :: (queue ++ (w.agents a).newCallbacks) :=
      (pending_of hposition).symm
    have hidle : (w.agents a).running = none := (running_of hposition).symm
    have hbetween : w.Between a .queued .invoked callback := by
      apply (hcallbacks.queued callback).mp
      rw [hpending]
      exact List.mem_cons_self
    have hphase := phase_of_between hbetween rfl
    have hnext : Phase.invoked.rank = (w.dispatches callback).phase.rank + 1 := by
      rw [hphase]
      rfl
    obtain ⟨hmeant, hqueued, hinvoked⟩ := hbetween
    have hmodule := hfields.module callback ⟨hmeant, Nat.le_trans (by decide) hqueued, hinvoked⟩
    have hsocket := hfields.socket callback ⟨hmeant, Nat.le_trans (by decide) hqueued, hinvoked⟩
    have hrequest := hfields.request callback ⟨hmeant, Nat.le_trans (by decide) hqueued, hinvoked⟩
    have hright : (⟨callback, (w.agents a).mpSavedModule, (w.agents a).maRequest,
        (w.agents a).mpSavedSocket⟩ : Invocation) = w.rightInvocation callback := by
      rw [hmodule, hsocket, hrequest]
      rfl
    rw [hright]
    obtain ⟨hd, rfl⟩ := hmeant
    constructor
    · have hstep : ((w.setPosition (w.dispatches callback).agent
          (.handling callback queue sockets)).setPhase callback .invoked).Ordered := by
        apply h.ordered.step
        · exact Fields.setPhase_late
            { hfields with stays := fun _ _ => rfl, purging := fun _ _ => rfl } hnext (by decide)
        · exact hcallbacks.invoke hpending hidle rfl
        · exact hnext
      exact hstep.congr rfl rfl rfl rfl fun _ hb => hb
    · exact h.recorded.invoke hd hphase rfl rfl rfl
  · exact h

theorem Inv.returns (h : w.Inv) (throws : Bool) : (w.returns a throws).Inv := by
  have hfields := h.ordered.fields a
  have hcallbacks := h.ordered.callbacks a
  unfold World.returns
  dsimp only
  split
  · rename_i callback queue sockets hposition
    have hpending := pending_of hposition
    have hrunning : (w.agents a).running = some callback := (running_of hposition).symm
    have hbetween := (hcallbacks.running callback).mp hrunning
    have hphase := phase_of_between hbetween rfl
    have hnext : Phase.returned.rank = (w.dispatches callback).phase.rank + 1 := by
      rw [hphase]
      rfl
    obtain ⟨⟨hd, rfl⟩, -, -⟩ := hbetween
    constructor
    · apply h.ordered.step
      · exact Fields.setPhase_late
          { hfields with stays := fun _ _ => rfl, purging := fun _ _ => rfl } hnext (by decide)
      · exact hcallbacks.return hpending hrunning rfl
      · exact hnext
    · apply Recorded.setPhase
      · exact h.recorded.congr rfl rfl rfl
      · show Phase.invoked.rank ≤ Phase.returned.rank ↔
          Phase.invoked.rank ≤ (w.dispatches callback).phase.rank
        rw [hphase]
        decide
  · exact h

theorem Inv.cleanupDeadAgents (h : w.Inv) : w.cleanupDeadAgents.Inv :=
  ⟨h.ordered.congr rfl rfl rfl rfl fun _ hb => List.mem_of_mem_filter hb,
    h.recorded.congr rfl rfl rfl⟩

/-! ## Runs -/

theorem Inv.act (h : w.Inv) {action : Action} (hproper : w.Proper action) : (act w action).Inv := by
  cases action with
  | accept module request socket => exact h.accept hproper module request socket
  | advance d =>
    show (if d < w.accepted then w.advance d else w).Inv
    split
    · rename_i hd
      exact h.advance hd hproper
    · exact h
  | check a => exact h.check hproper
  | purge a => exact h.purge
  | wake a pipe => exact h.wake pipe
  | timeout a expired => exact h.timeout hproper
  | run a => exact h.run
  | returns a throws => exact h.returns throws
  | hangUp a socket => exact h.hangUp socket
  | resume a => exact h.resume
  | leave a => exact h.leave
  | finish a => exact h.finish
  | cleanupDeadAgents => exact h.cleanupDeadAgents

theorem inv_init : init.Inv := by
  have hnone : ∀ a since before d, ¬ init.Between a since before d :=
    fun _ _ _ d hd => Nat.not_lt_zero d hd.1.1
  constructor
  · constructor
    · intro a
      constructor
      all_goals exact fun d hd => absurd hd (hnone _ _ _ d)
    · intro a
      constructor
      · exact fun d => iff_of_false List.not_mem_nil (hnone _ _ _ d)
      · exact List.nodup_nil
      · exact fun d => iff_of_false nofun (hnone _ _ _ d)
    · exact fun d hd => absurd hd (Nat.not_lt_zero d)
    · exact fun a ha => absurd ha List.not_mem_nil
  · exact ⟨fun d hd => absurd hd (Nat.not_lt_zero d), fun i hi => absurd hi List.not_mem_nil⟩

/-- The agent of a request whose handler was not invoked is in its loop. -/
theorem Ordered.inLoop (h : w.Ordered) (hd : d < w.accepted)
    (hearly : (w.dispatches d).phase.rank < Phase.invoked.rank) : (w.agentOf d).inLoop = true :=
  (Bool.and_eq_true _ _ ▸ (h.fields _).stays d ⟨⟨hd, rfl⟩, Nat.zero_le _, hearly⟩ : _ ∧ _).1

theorem Ordered.underWay (h : w.Ordered) (hd : d < w.accepted)
    (hearly : (w.dispatches d).phase.rank < Phase.invoked.rank) : w.UnderWay d := by
  refine ⟨h.inLoop hd hearly, ?_⟩
  rcases Nat.lt_or_ge (w.dispatches d).phase.rank Phase.queued.rank with hlt | hge
  · exact .inl hlt
  · right
    exact ((h.callbacks _).queued d).mpr ⟨⟨hd, rfl⟩, hge, hearly⟩

theorem Inv.runsOnce (h : w.Inv) : w.RunsOnce where
  once d hd := by
    have hinvocations := h.recorded.invocations d hd
    rcases Nat.lt_or_ge (w.dispatches d).phase.rank Phase.invoked.rank with hearly | hlate
    · left
      rw [if_neg (Nat.not_le_of_lt hearly)] at hinvocations
      exact ⟨hinvocations, h.ordered.underWay hd hearly⟩
    · right
      rwa [if_pos hlate] at hinvocations
  stays d hd hnone := by
    have hinvocations := h.recorded.invocations d hd
    apply h.ordered.inLoop hd
    by_contra hlate
    rw [hnone, if_pos (Nat.le_of_not_lt hlate)] at hinvocations
    cases hinvocations
  busy d hd hbetween := by
    have hbusy := (h.ordered.fields _).busy d hbetween
    rw [Agent.isIdle, agentOf, hbusy]
    exact Bool.and_false _

/-! ## The threads go on -/

/-- A dispatch later on: it has got as far at least, and is the same otherwise. -/
structure Later (w w' : World) (d : Nat) : Prop where
  accepted : d < w'.accepted
  dispatch : w'.dispatches d = { w.dispatches d with phase := (w'.dispatches d).phase }
  rank : (w.dispatches d).phase.rank ≤ (w'.dispatches d).phase.rank

theorem Later.rightInvocation (h : w.Later w' d) : w'.rightInvocation d = w.rightInvocation d := by
  unfold World.rightInvocation
  rw [h.dispatch]

theorem later_of_eq (hd : d < w.accepted) (haccepted : w'.accepted = w.accepted)
    (hdispatches : w'.dispatches = w.dispatches) : w.Later w' d := by
  refine ⟨haccepted ▸ hd, ?_, Nat.le_of_eq ?_⟩
  · rw [hdispatches]
  · rw [hdispatches]

theorem later_setPhase (hd : d < w.accepted) {e : Nat}
    (hrank : (w.dispatches e).phase.rank ≤ phase.rank) (haccepted : w'.accepted = w.accepted)
    (hdispatches : w'.dispatches = (w.setPhase e phase).dispatches) : w.Later w' d := by
  refine ⟨haccepted ▸ hd, ?_, ?_⟩
  all_goals
    rw [hdispatches]
    by_cases hde : d = e
  · rw [hde, dispatches_setPhase_self]
  · rw [dispatches_setPhase_of_ne hde]
  · rw [hde, dispatches_setPhase_self]
    exact hrank
  · exact Nat.le_of_eq (by rw [dispatches_setPhase_of_ne hde])

theorem later_dispatchTo (hd : d < w.accepted) (module request socket : Nat) :
    w.Later (w.dispatchTo a module request socket) d := by
  have hsame := dispatches_dispatchTo_of_lt (a := a) hd module request socket
  refine ⟨Nat.lt_succ_of_lt hd, ?_, Nat.le_of_eq ?_⟩
  · rw [hsame]
  · rw [hsame]

theorem later_advance (hd : d < w.accepted) (e : Nat) : w.Later (w.advance e) d := by
  unfold World.advance
  dsimp only
  split
  case h_7 => exact later_of_eq hd rfl rfl
  all_goals
    rename_i hphase
    refine later_setPhase hd (e := e) ?_ rfl rfl
    rw [hphase]
    decide

/-- The callback that a thread runs is that of a dispatch which has queued it. -/
theorem Inv.phase_of_started (h : w.Inv) {callback : Nat} {queue sockets : List Nat}
    (hposition : (w.agents a).position = .started callback queue sockets) :
    (w.dispatches callback).phase = .queued := by
  have hmem : callback ∈ (w.agents a).pending := by
    rw [← pending_of hposition]
    exact List.mem_cons_self
  exact phase_of_between (((h.ordered.callbacks a).queued callback).mp hmem) rfl

/-- **A dispatch only goes on.** -/
theorem Inv.later_act (h : w.Inv) (hd : d < w.accepted) (action : Action) :
    w.Later (Agents.act w action) d := by
  cases action with
  | accept module request socket =>
    show w.Later (w.accept module request socket) d
    unfold World.accept
    split
    · exact later_dispatchTo hd module request socket
    · have hnew : w.newAgent.Later (w.newAgent.dispatchTo w.agentCount module request socket) d :=
        later_dispatchTo (w := w.newAgent) (a := w.agentCount) hd module request socket
      exact ⟨hnew.accepted, hnew.dispatch, hnew.rank⟩
  | advance e =>
    show w.Later (if e < w.accepted then w.advance e else w) d
    split
    · exact later_advance hd e
    · exact later_of_eq hd rfl rfl
  | run b =>
    show w.Later (w.run b) d
    unfold World.run
    dsimp only
    split
    · exact later_of_eq hd rfl rfl
    · exact later_of_eq hd rfl rfl
    · rename_i callback queue sockets hposition
      refine later_setPhase hd (e := callback) ?_ rfl rfl
      rw [h.phase_of_started hposition]
      decide
    · exact later_of_eq hd rfl rfl
  | returns b throws =>
    show w.Later (w.returns b throws) d
    unfold World.returns
    dsimp only
    split
    · rename_i callback queue sockets hposition
      refine later_setPhase hd (e := callback) ?_ rfl rfl
      cases (w.dispatches callback).phase <;> decide
    · exact later_of_eq hd rfl rfl
  | cleanupDeadAgents => exact later_of_eq hd rfl rfl
  | check b =>
    show w.Later (w.check b) d
    unfold World.check
    split
    all_goals exact later_of_eq hd rfl rfl
  | purge b =>
    show w.Later (w.purge b) d
    unfold World.purge
    dsimp only
    split
    all_goals exact later_of_eq hd rfl rfl
  | wake b pipe =>
    show w.Later (w.wake b pipe) d
    unfold World.wake
    dsimp only
    split
    · split
      all_goals exact later_of_eq hd rfl rfl
    · exact later_of_eq hd rfl rfl
  | timeout b expired =>
    show w.Later (w.timeout b expired) d
    unfold World.timeout
    split
    all_goals exact later_of_eq hd rfl rfl
  | hangUp b socket =>
    show w.Later (w.hangUp b socket) d
    unfold World.hangUp
    dsimp only
    split
    · split
      all_goals exact later_of_eq hd rfl rfl
    · exact later_of_eq hd rfl rfl
  | resume b =>
    show w.Later (w.resume b) d
    unfold World.resume
    split
    all_goals exact later_of_eq hd rfl rfl
  | leave b =>
    show w.Later (w.leave b) d
    unfold World.leave
    split
    all_goals exact later_of_eq hd rfl rfl
  | finish b =>
    show w.Later (w.finish b) d
    unfold World.finish
    split
    all_goals exact later_of_eq hd rfl rfl

theorem agents_setAgent_self {agent : Agent} : (w.setAgent a agent).agents a = agent :=
  Function.update_self ..

theorem agents_setAgent_of_ne {b : Nat} (hb : a ≠ b) {agent : Agent} :
    (w.setAgent b agent).agents a = w.agents a := Function.update_of_ne hb ..

/-- What other threads leave of an agent. -/
structure Waits (x y : Agent) : Prop where
  stage : y.position.stage = x.position.stage
  togo : y.position.togo = x.position.togo
  taken : y.taken = x.taken
  newCallbacks : ∀ d ∈ x.newCallbacks, d ∈ y.newCallbacks

theorem Waits.refl (x : Agent) : Waits x x := ⟨rfl, rfl, rfl, fun _ hd => hd⟩

theorem waits_advance (d : Nat) : Waits (w.agents a) ((w.advance d).agents a) := by
  have hset : ∀ agent : Agent, Waits (w.agentOf d) agent →
      Waits (w.agents a) ((w.setAgent (w.dispatches d).agent agent).agents a) := by
    intro agent hagent
    by_cases ha : a = (w.dispatches d).agent
    · subst ha
      rw [agents_setAgent_self]
      exact hagent
    · rw [agents_setAgent_of_ne ha]
      exact .refl _
  unfold World.advance
  dsimp only
  split
  · exact hset _ ⟨rfl, rfl, rfl, fun _ hd => hd⟩
  · exact hset _ ⟨rfl, rfl, rfl, fun _ hd => hd⟩
  · exact hset _ ⟨rfl, rfl, rfl, fun _ hd => hd⟩
  · exact hset _ ⟨rfl, rfl, rfl, fun _ hd => hd⟩
  · exact hset _ ⟨rfl, rfl, rfl, fun _ hd => hd⟩
  · exact hset _ ⟨rfl, rfl, rfl, fun _ hd => List.mem_append_left _ hd⟩
  · exact .refl _

/-- The steps of a thread leave the other agents alone. -/
theorem agents_act_of_ne {action : Action} {b : Nat} (hthread : action.thread = some b) (hb : a ≠ b) :
    (Agents.act w action).agents a = w.agents a := by
  cases action with
  | accept module request socket => cases hthread
  | advance d => cases hthread
  | cleanupDeadAgents => cases hthread
  | check c =>
    obtain rfl := Option.some.inj hthread
    show (w.check c).agents a = _
    unfold World.check
    split
    · exact agents_setAgent_of_ne hb
    · rfl
  | purge c =>
    obtain rfl := Option.some.inj hthread
    show (w.purge c).agents a = _
    unfold World.purge
    dsimp only
    split
    case h_5 => rfl
    all_goals exact agents_setAgent_of_ne hb
  | wake c pipe =>
    obtain rfl := Option.some.inj hthread
    show (w.wake c pipe).agents a = _
    unfold World.wake
    dsimp only
    split
    · split
      all_goals exact agents_setAgent_of_ne hb
    · rfl
  | timeout c expired =>
    obtain rfl := Option.some.inj hthread
    show (w.timeout c expired).agents a = _
    unfold World.timeout
    split
    · exact agents_setAgent_of_ne hb
    · rfl
  | run c =>
    obtain rfl := Option.some.inj hthread
    show (w.run c).agents a = _
    unfold World.run
    dsimp only
    split
    case h_4 => rfl
    all_goals exact agents_setAgent_of_ne hb
  | returns c throws =>
    obtain rfl := Option.some.inj hthread
    show (w.returns c throws).agents a = _
    unfold World.returns
    dsimp only
    split
    · exact agents_setAgent_of_ne hb
    · rfl
  | hangUp c socket =>
    obtain rfl := Option.some.inj hthread
    show (w.hangUp c socket).agents a = _
    unfold World.hangUp
    dsimp only
    split
    · split
      · exact agents_setAgent_of_ne hb
      · rfl
    · rfl
  | resume c =>
    obtain rfl := Option.some.inj hthread
    show (w.resume c).agents a = _
    unfold World.resume
    split
    case h_3 => rfl
    all_goals exact agents_setAgent_of_ne hb
  | leave c =>
    obtain rfl := Option.some.inj hthread
    show (w.leave c).agents a = _
    unfold World.leave
    split
    · exact agents_setAgent_of_ne hb
    · rfl
  | finish c =>
    obtain rfl := Option.some.inj hthread
    show (w.finish c).agents a = _
    unfold World.finish
    split
    · exact agents_setAgent_of_ne hb
    · rfl

/-- **What an action makes of a thread.** It is the step that is next there; or it leaves the thread where
it is; or the poll returns without the callbacks. -/
theorem goesOn_or_waits (ha : a < w.agentCount) (action : Action) :
    action.goesOn a (w.agents a).position.stage = true ∨
      Waits (w.agents a) ((Agents.act w action).agents a) ∨
      (w.agents a).position = .polling ∧
        ((Agents.act w action).agents a).newCallbacks = (w.agents a).newCallbacks := by
  by_cases hother : ∃ b, action.thread = some b ∧ a ≠ b
  · obtain ⟨b, hthread, hb⟩ := hother
    refine .inr (.inl ?_)
    rw [agents_act_of_ne hthread hb]
    exact .refl _
  have hown : ∀ b, action.thread = some b → a = b := fun b hthread =>
    by_contra fun hb => hother ⟨b, hthread, hb⟩
  -- the step is next at this position
  have hnext : ∀ {position : Position}, (w.agents a).position = position →
      action.goesOn a position.stage = true → action.goesOn a (w.agents a).position.stage = true := by
    rintro _ rfl hgoes
    exact hgoes
  unfold Agents.act
  cases action with
  | accept module request socket =>
    refine .inr (.inl ?_)
    dsimp only
    unfold World.accept
    split
    · exact .refl _
    · show Waits _ ((w.setAgent w.agentCount .new).agents a)
      rw [agents_setAgent_of_ne (Nat.ne_of_lt ha)]
      exact .refl _
  | advance d =>
    refine .inr (.inl ?_)
    dsimp only
    split
    · exact waits_advance d
    · exact .refl _
  | cleanupDeadAgents => exact .inr (.inl (.refl _))
  | check b =>
    obtain rfl := hown b rfl
    dsimp only
    unfold World.check
    split
    · rename_i hposition
      exact .inl (hnext hposition (decide_eq_true rfl))
    · exact .inr (.inl (.refl _))
  | purge b =>
    obtain rfl := hown b rfl
    dsimp only
    unfold World.purge
    dsimp only
    split
    case h_5 => exact .inr (.inl (.refl _))
    all_goals
      rename_i hposition
      exact .inl (hnext hposition (decide_eq_true rfl))
  | wake b pipe =>
    obtain rfl := hown b rfl
    dsimp only
    unfold World.wake
    dsimp only
    split
    · rename_i hposition
      cases pipe with
      | true => exact .inl (hnext hposition (decide_eq_true rfl))
      | false =>
        refine .inr (.inr ⟨hposition, ?_⟩)
        show ((w.setAgent a _).agents a).newCallbacks = _
        rw [agents_setAgent_self]
    · exact .inr (.inl (.refl _))
  | timeout b expired =>
    obtain rfl := hown b rfl
    dsimp only
    unfold World.timeout
    split
    · rename_i hquiet
      refine .inr (.inr ⟨hquiet.1, ?_⟩)
      show ((w.setAgent a _).agents a).newCallbacks = _
      rw [agents_setAgent_self]
    · exact .inr (.inl (.refl _))
  | run b =>
    obtain rfl := hown b rfl
    dsimp only
    unfold World.run
    dsimp only
    split
    case h_4 => exact .inr (.inl (.refl _))
    all_goals
      rename_i hposition
      exact .inl (hnext hposition (decide_eq_true rfl))
  | returns b throws =>
    obtain rfl := hown b rfl
    dsimp only
    unfold World.returns
    dsimp only
    split
    · rename_i hposition
      exact .inl (hnext hposition (decide_eq_true rfl))
    · exact .inr (.inl (.refl _))
  | hangUp b socket =>
    obtain rfl := hown b rfl
    refine .inr (.inl ?_)
    dsimp only
    unfold World.hangUp
    dsimp only
    split
    · rename_i sockets hposition
      split
      · show Waits _ ((w.setAgent a _).agents a)
        rw [agents_setAgent_self]
        refine ⟨?_, ?_, ?_, fun _ hd => hd⟩
        · rw [hposition]
          rfl
        · rw [hposition]
          rfl
        · rw [Agent.taken, Agent.taken, hposition]
      · exact .refl _
    · exact .refl _
  | resume b =>
    obtain rfl := hown b rfl
    dsimp only
    unfold World.resume
    split
    case h_3 => exact .inr (.inl (.refl _))
    all_goals
      rename_i hposition
      exact .inl (hnext hposition (decide_eq_true rfl))
  | leave b =>
    obtain rfl := hown b rfl
    dsimp only
    unfold World.leave
    split
    · rename_i hposition
      exact .inl (hnext hposition (decide_eq_true rfl))
    · exact .inr (.inl (.refl _))
  | finish b =>
    obtain rfl := hown b rfl
    dsimp only
    unfold World.finish
    split
    · rename_i hposition
      exact .inl (hnext hposition (decide_eq_true rfl))
    · exact .inr (.inl (.refl _))

/-- What the next step of a thread makes of it. -/
structure Takes (a : Nat) (w w' : World) : Prop where
  togo : (w'.agents a).position.togo < (w.agents a).position.togo
  newCallbacks : (w'.agents a).newCallbacks = (w.agents a).newCallbacks
  taken : ∀ d ∈ (w.agents a).taken,
    d ∈ (w'.agents a).taken ∨ (w'.dispatches d).phase = .invoked

theorem takes_setAgent {agent : Agent} {position : Position}
    (hposition : (w.agents a).position = position) (htogo : agent.position.togo < position.togo)
    (hnew : agent.newCallbacks = (w.agents a).newCallbacks)
    (htaken : agent.taken = { w.agents a with position := position }.taken) :
    Takes a w (w.setAgent a agent) := by
  subst hposition
  refine ⟨?_, ?_, fun d hd => .inl ?_⟩
  · rw [agents_setAgent_self]
    exact htogo
  · rw [agents_setAgent_self]
    exact hnew
  · rw [agents_setAgent_self, htaken]
    exact hd

theorem takes_purge (hpurging : (w.agents a).isPurging = true) : Takes a w (w.purge a) := by
  have hposition : (w.agents a).position = .purgeModule ∨ (w.agents a).position = .purgeSocket ∨
      (w.agents a).position = .purgeRunning ∨ (w.agents a).position = .purgeBusy := by
    simpa [Agent.isPurging] using hpurging
  rcases hposition with hposition | hposition | hposition | hposition
  all_goals
    rw [World.purge, hposition]
  · exact takes_setAgent hposition (Nat.lt_succ_self 3) rfl rfl
  · exact takes_setAgent hposition (Nat.lt_succ_self 2) rfl rfl
  · exact takes_setAgent hposition (Nat.lt_succ_self 1) rfl rfl
  · exact takes_setAgent hposition (Nat.lt_succ_self 0) rfl rfl

/-- **The next step takes the thread on**, towards its next poll. The callback that it runs is invoked. -/
theorem takes_act {action : Action} (hgoes : action.goesOn a (w.agents a).position.stage = true)
    (hstays : (w.agents a).staysInLoop = true) (hnot : (w.agents a).position ≠ .polling) :
    Takes a w (Agents.act w action) := by
  rw [Agent.staysInLoop, Agent.inLoop] at hstays
  cases hposition : (w.agents a).position with
  | polling => exact absurd hposition hnot
  | left =>
    rw [hposition] at hstays
    cases hstays
  | finished =>
    rw [hposition] at hstays
    cases hstays
  | loop =>
    rw [hposition] at hgoes
    cases action with
    | check b =>
      obtain rfl := of_decide_eq_true hgoes
      show Takes b w (w.check b)
      rw [World.check, if_pos hposition]
      split
      · exact takes_setAgent hposition (Nat.lt_succ_self 4) rfl rfl
      · exact takes_setAgent hposition (Nat.succ_pos 4) rfl rfl
    | _ => cases hgoes
  | callbacks queue sockets =>
    rw [hposition] at hgoes
    cases action with
    | run b =>
      obtain rfl := of_decide_eq_true hgoes
      show Takes b w (w.run b)
      rw [World.run, hposition]
      cases queue with
      | nil => exact takes_setAgent hposition (Nat.lt_succ_self 6) rfl rfl
      | cons callback queue =>
        refine takes_setAgent hposition ?_ rfl rfl
        show 9 + 3 * queue.length < 7 + 3 * (queue.length + 1)
        omega
    | _ => cases hgoes
  | started callback queue sockets =>
    rw [hposition] at hgoes
    cases action with
    | run b =>
      obtain rfl := of_decide_eq_true hgoes
      show Takes b w (w.run b)
      rw [World.run, hposition]
      refine ⟨?_, ?_, fun d hd => ?_⟩
      · show ((w.setAgent b _).agents b).position.togo < _
        rw [agents_setAgent_self, hposition]
        show 8 + 3 * queue.length < 9 + 3 * queue.length
        omega
      · show ((w.setAgent b _).agents b).newCallbacks = _
        rw [agents_setAgent_self]
      · rw [Agent.taken, hposition, List.mem_cons] at hd
        rcases hd with rfl | hd
        · right
          show ((w.setPhase d .invoked).dispatches d).phase = _
          rw [dispatches_setPhase_self]
        · left
          show d ∈ ((w.setAgent b _).agents b).taken
          rw [agents_setAgent_self]
          exact hd
    | _ => cases hgoes
  | handling callback queue sockets =>
    rw [hposition] at hgoes
    cases action with
    | returns b throws =>
      obtain rfl := of_decide_eq_true hgoes
      show Takes b w (w.returns b throws)
      rw [World.returns, hposition]
      refine ⟨?_, ?_, fun d hd => .inl ?_⟩
      · show ((w.setAgent b _).agents b).position.togo < _
        rw [agents_setAgent_self, hposition]
        show 7 + 3 * queue.length < 8 + 3 * queue.length
        omega
      · show ((w.setAgent b _).agents b).newCallbacks = _
        rw [agents_setAgent_self]
      · rw [Agent.taken, hposition] at hd
        show d ∈ ((w.setAgent b _).agents b).taken
        rw [agents_setAgent_self]
        exact hd
    | _ => cases hgoes
  | events sockets =>
    rw [hposition] at hgoes
    cases action with
    | resume b =>
      obtain rfl := of_decide_eq_true hgoes
      show Takes b w (w.resume b)
      rw [World.resume, hposition]
      exact takes_setAgent hposition (Nat.lt_succ_self 5) rfl rfl
    | _ => cases hgoes
  | timedOut expired =>
    rw [hposition] at hgoes hstays
    cases expired with
    | true => cases hstays
    | false =>
      cases action with
      | resume b =>
        obtain rfl := of_decide_eq_true hgoes
        show Takes b w (w.resume b)
        rw [World.resume, hposition]
        exact takes_setAgent hposition (Nat.lt_succ_self 5) rfl rfl
      | _ => cases hgoes
  | _ =>
    rw [hposition] at hgoes
    cases action with
    | purge b =>
      obtain rfl := of_decide_eq_true hgoes
      refine takes_purge ?_
      rw [Agent.isPurging, hposition]
      decide
    | _ => cases hgoes

theorem stage_eq_finished {position : Position} (h : position.stage = .finished) :
    position = .finished := by
  cases position with
  | finished => rfl
  | timedOut expired => cases expired <;> cases h
  | _ => cases h

theorem stage_eq_polling {position : Position} (h : position.stage = .polling) : position = .polling := by
  cases position with
  | polling => rfl
  | timedOut expired => cases expired <;> cases h
  | _ => cases h

/-- A thread that stays and has no step to go polls. -/
theorem polling_of_togo {x : Agent} (hstays : x.staysInLoop = true) (htogo : x.position.togo ≤ 0) :
    x.position = .polling := by
  rw [Agent.staysInLoop, Agent.inLoop] at hstays
  cases hposition : x.position with
  | polling => rfl
  | left =>
    rw [hposition] at hstays
    cases hstays
  | finished =>
    rw [hposition] at hstays
    cases hstays
  | _ =>
    rw [hposition, Position.togo] at htogo
    omega

/-- The poll returns for the callbacks. -/
theorem taken_act_of_polling {action : Action} (hposition : (w.agents a).position = .polling)
    (hgoes : action.goesOn a .polling = true) :
    ((Agents.act w action).agents a).taken = (w.agents a).newCallbacks := by
  cases action with
  | wake b pipe =>
    cases pipe with
    | false => cases hgoes
    | true =>
      obtain rfl := of_decide_eq_true hgoes
      show ((w.wake b true).agents b).taken = _
      rw [World.wake, hposition]
      show ((w.setAgent b _).agents b).taken = _
      rw [agents_setAgent_self]
      rfl
  | _ => cases hgoes

/-- The next assignment of a dispatch. -/
theorem rank_advance (hd : d < w.accepted) (hearly : (w.dispatches d).phase.rank < Phase.queued.rank) :
    d < (Agents.act w (.advance d)).accepted ∧
      ((Agents.act w (.advance d)).dispatches d).phase.rank = (w.dispatches d).phase.rank + 1 := by
  have hact : Agents.act w (.advance d) = w.advance d := if_pos hd
  have hset : ∀ {agent : Agent} {phase : Phase}, phase.rank = (w.dispatches d).phase.rank + 1 →
      ((((w.setAgent (w.dispatches d).agent agent).setPhase d phase).dispatches d).phase.rank =
        (w.dispatches d).phase.rank + 1) := by
    intro agent phase hrank
    rw [dispatches_setPhase_self]
    exact hrank
  rw [hact]
  unfold World.advance
  dsimp only
  split
  case h_7 hchosen hbusy hmodule hsocket hrequest hinserted =>
    generalize (w.dispatches d).phase = phase at hearly hchosen hbusy hmodule hsocket hrequest hinserted
    cases phase <;> contradiction
  all_goals
    rename_i hphase
    exact ⟨hd, hset (by rw [hphase]; rfl)⟩

/-- The handler of the dispatch has been invoked. -/
def Invoked (w : World) (d : Nat) : Prop :=
  d < w.accepted ∧ Phase.invoked.rank ≤ (w.dispatches d).phase.rank

/-- The callback of the dispatch waits, among those that its thread has taken or among the new ones. -/
def WaitsIn (w : World) (a d : Nat) (callbacks : Agent → List Nat) : Prop :=
  w.Between a .queued .invoked d ∧ d ∈ callbacks (w.agents a)

theorem Inv.stays_of_between (h : w.Inv) (hd : w.Between a .queued .invoked d) :
    (w.agents a).staysInLoop = true :=
  (h.ordered.fields a).stays d (between_mono hd (Nat.zero_le _) (Nat.le_refl _))

theorem Inv.lt_of_between (h : w.Inv) (hd : w.Between a since before d) : a < w.agentCount := by
  rw [← hd.1.2]
  exact h.ordered.numbered d hd.1.1

/-- A callback that is still somewhere waits there, or its handler has been invoked. -/
theorem Inv.waitsIn_act (h : w.Inv) {action : Action} {callbacks : Agent → List Nat}
    (hd : w.Between a .queued .invoked d)
    (hmem : d ∈ callbacks ((Agents.act w action).agents a) ∨
      ((Agents.act w action).dispatches d).phase = .invoked) :
    (Agents.act w action).WaitsIn a d callbacks ∨ (Agents.act w action).Invoked d := by
  obtain ⟨⟨haccepted, ha⟩, hqueued, -⟩ := hd
  have hlater := h.later_act haccepted action
  by_cases hinvoked : Phase.invoked.rank ≤ ((Agents.act w action).dispatches d).phase.rank
  · exact .inr ⟨hlater.accepted, hinvoked⟩
  rcases hmem with hmem | hphase
  · refine .inl ⟨⟨⟨hlater.accepted, ?_⟩, Nat.le_trans hqueued hlater.rank, Nat.lt_of_not_le hinvoked⟩,
      hmem⟩
    rw [hlater.dispatch]
    exact ha
  · rw [hphase] at hinvoked
    exact absurd (Nat.le_refl _) hinvoked

end World

/-! ## Runs without an end -/

section Runs

variable (as : Nat → Action)

def worldAt (n : Nat) : World := Run.stateAt act .init as n

/-- The thread is at this stage, where it polls with a callback queued. -/
def World.IsAt (a : Nat) (stage : Stage) (w : World) : Prop :=
  a < w.agentCount ∧ (w.agents a).position.stage = stage ∧
    (stage = .polling → (w.agents a).newCallbacks ≠ [])

instance (a : Nat) (stage : Stage) (w : World) : Decidable (w.IsAt a stage) :=
  inferInstanceAs (Decidable (_ ∧ _ ∧ (_ → _)))

/-- The dispatch has not queued its callback. -/
def World.Dispatches (d : Nat) (w : World) : Prop :=
  d < w.accepted ∧ (w.dispatches d).phase.rank < Phase.queued.rank

instance (d : Nat) (w : World) : Decidable (w.Dispatches d) := inferInstanceAs (Decidable (_ ∧ _))

/-- Nothing is put off for ever: no dispatch that has to queue its callback, and no thread, whose poll
returns when a callback is queued and whose handlers return. -/
structure GoesOn : Prop where
  dispatches : ∀ d, Run.FairFor act .init as (World.Dispatches d) (· = .advance d)
  agents : ∀ a stage, stage ≠ .finished →
    Run.FairFor act .init as (World.IsAt a stage) fun action => action.goesOn a stage = true

variable {as} {a d : Nat} (hinv : ∀ n, (Run.stateAt act .init as n).Inv) (hgoes : GoesOn as)
include hinv hgoes

/-- A thread comes to its next poll, and what waits waits until then. -/
theorem leadsTo_polling {callbacks : Agent → List Nat}
    (hwaits : ∀ {x y : Agent}, World.Waits x y → d ∈ callbacks x → d ∈ callbacks y)
    (htakes : ∀ {w w' : World}, World.Takes a w w' → d ∈ callbacks (w.agents a) →
      d ∈ callbacks (w'.agents a) ∨ (w'.dispatches d).phase = .invoked) (togo : Nat) :
    Run.LeadsTo act .init as
      (fun w => w.WaitsIn a d callbacks ∧ (w.agents a).position.togo ≤ togo)
      (fun w => w.WaitsIn a d callbacks ∧ (w.agents a).position = .polling ∨ w.Invoked d) := by
  induction togo with
  | zero =>
    rintro n ⟨hn, htogo⟩
    exact ⟨n, Nat.le_refl n,
      .inl ⟨hn, World.polling_of_togo ((hinv n).stays_of_between hn.1) htogo⟩⟩
  | succ togo ih =>
    rintro n ⟨hn, htogo⟩
    by_cases hpolling : ((Run.stateAt act .init as n).agents a).position = .polling
    · exact ⟨n, Nat.le_refl n, .inl ⟨hn, hpolling⟩⟩
    generalize hstage : ((Run.stateAt act .init as n).agents a).position.stage = stage
    have hnot : stage ≠ .polling := by
      rintro rfl
      exact hpolling (World.stage_eq_polling hstage)
    have hend : stage ≠ .finished := by
      rintro rfl
      have hstays := (hinv n).stays_of_between hn.1
      rw [Agent.staysInLoop, Agent.inLoop, World.stage_eq_finished hstage] at hstays
      cases hstays
    have hgo : ∀ w action, World.Inv w → w.WaitsIn a d callbacks ∧ (w.agents a).position.stage = stage ∧
        (w.agents a).position.togo ≤ togo + 1 → action.goesOn a stage = true →
          (act w action).WaitsIn a d callbacks ∧ ((act w action).agents a).position.togo ≤ togo ∨
            (act w action).Invoked d := by
      rintro w action hw ⟨hwaiting, rfl, hle⟩ hnext
      have htake := World.takes_act hnext (hw.stays_of_between hwaiting.1) fun hposition =>
        hnot (by rw [hposition]; rfl)
      rcases hw.waitsIn_act hwaiting.1 (htakes htake hwaiting.2) with hwaits' | hinvoked
      · exact .inl ⟨hwaits', Nat.le_of_lt_succ (Nat.lt_of_lt_of_le htake.togo hle)⟩
      · exact .inr hinvoked
    have hfair := Run.leadsTo_of_fair (I := World.Inv) (P := fun w => w.WaitsIn a d callbacks ∧
        (w.agents a).position.stage = stage ∧ (w.agents a).position.togo ≤ togo + 1)
      (Q := fun w => w.WaitsIn a d callbacks ∧ (w.agents a).position.togo ≤ togo ∨ w.Invoked d)
      hinv (hgoes.agents a stage hend) ?_ fun w action hw hP _ => hgo w action hw hP
    · obtain ⟨m, hm, hwaiting | hinvoked⟩ := hfair n ⟨⟨hn, hstage, htogo⟩,
        (hinv n).lt_of_between hn.1, hstage, fun heq => absurd heq hnot⟩
      · obtain ⟨l, hl, hdone⟩ := ih m hwaiting
        exact ⟨l, Nat.le_trans hm hl, hdone⟩
      · exact ⟨m, hm, .inr hinvoked⟩
    · rintro w action hw ⟨hwaiting, hstage, hle⟩
      rcases World.goesOn_or_waits (hw.lt_of_between hwaiting.1) action with hnext | hsame | hpoll
      · rw [hstage] at hnext
        exact .inr (hgo w action hw ⟨hwaiting, hstage, hle⟩ hnext)
      · rcases hw.waitsIn_act hwaiting.1 (.inl (hwaits hsame hwaiting.2)) with hwaits' | hinvoked
        · exact .inl ⟨hwaits', hsame.stage.trans hstage, hsame.togo ▸ hle⟩
        · exact .inr (.inr hinvoked)
      · rw [hpoll.1] at hstage
        exact absurd hstage.symm hnot

/-- A callback that was taken is run before the next poll. -/
theorem leadsTo_invoked_of_taken :
    Run.LeadsTo act .init as (fun w => w.WaitsIn a d Agent.taken) (fun w => w.Invoked d) := by
  intro n hn
  obtain ⟨m, hm, ⟨hwaiting, hpolling⟩ | hinvoked⟩ := leadsTo_polling hinv hgoes
    (fun hsame hmem => hsame.taken ▸ hmem) (fun htake hmem => htake.taken d hmem) _ n ⟨hn, Nat.le_refl _⟩
  · have hmem := hwaiting.2
    rw [Agent.taken, hpolling] at hmem
    cases hmem
  · exact ⟨m, hm, hinvoked⟩

/-- What is new is taken by the next poll that returns for it. -/
theorem leadsTo_invoked_of_new :
    Run.LeadsTo act .init as (fun w => w.WaitsIn a d Agent.newCallbacks) (fun w => w.Invoked d) := by
  have hwaits : ∀ {x y : Agent}, World.Waits x y → d ∈ x.newCallbacks → d ∈ y.newCallbacks :=
    fun hsame hmem => hsame.newCallbacks d hmem
  have htakes : ∀ {w w' : World}, World.Takes a w w' → d ∈ (w.agents a).newCallbacks →
      d ∈ (w'.agents a).newCallbacks ∨ (w'.dispatches d).phase = .invoked :=
    fun htake hmem => .inl (htake.newCallbacks ▸ hmem)
  have hwake : ∀ w action, World.Inv w → w.WaitsIn a d Agent.newCallbacks →
      (w.agents a).position = .polling → action.goesOn a .polling = true →
        (act w action).WaitsIn a d Agent.taken ∨ (act w action).Invoked d := by
    intro w action hw hwaiting hpolling hnext
    refine hw.waitsIn_act hwaiting.1 (.inl ?_)
    rw [World.taken_act_of_polling hpolling hnext]
    exact hwaiting.2
  have hfair := Run.leadsTo_of_fair (I := World.Inv) (P := fun w => w.WaitsIn a d Agent.newCallbacks)
    (Q := fun w => w.WaitsIn a d Agent.taken ∨ w.Invoked d) hinv
    (hgoes.agents a .polling (by decide)) ?_ fun w action hw hP henabled hnext =>
      hwake w action hw hP (World.stage_eq_polling henabled.2.1) hnext
  · intro n hn
    obtain ⟨m, hm, ⟨hwaiting, hpolling⟩ | hinvoked⟩ :=
      leadsTo_polling hinv hgoes hwaits htakes _ n ⟨hn, Nat.le_refl _⟩
    · obtain ⟨l, hl, hdone⟩ := hfair m ⟨hwaiting, (hinv m).lt_of_between hwaiting.1,
        congrArg Position.stage hpolling, fun _ hnil => by
          have hmem := hwaiting.2
          rw [hnil] at hmem
          cases hmem⟩
      rcases hdone with htaken | hinvoked
      · obtain ⟨j, hj, hinvoked⟩ := leadsTo_invoked_of_taken hinv hgoes l htaken
        exact ⟨j, Nat.le_trans (Nat.le_trans hm hl) hj, hinvoked⟩
      · exact ⟨l, Nat.le_trans hm hl, hinvoked⟩
    · exact ⟨m, hm, hinvoked⟩
  · intro w action hw hwaiting
    by_cases hpolling : (w.agents a).position = .polling
    · rcases World.goesOn_or_waits (hw.lt_of_between hwaiting.1) action with hnext | hsame | hpoll
      · rw [hpolling] at hnext
        exact .inr (hwake w action hw hwaiting hpolling hnext)
      · exact (hw.waitsIn_act hwaiting.1 (.inl (hwaits hsame hwaiting.2))).imp_right .inr
      · exact (hw.waitsIn_act hwaiting.1 (.inl (hpoll.2 ▸ hwaiting.2))).imp_right .inr
    · rcases World.goesOn_or_waits (hw.lt_of_between hwaiting.1) action with hnext | hsame | hpoll
      · have htake := World.takes_act hnext (hw.stays_of_between hwaiting.1) hpolling
        exact (hw.waitsIn_act hwaiting.1 (htakes htake hwaiting.2)).imp_right .inr
      · exact (hw.waitsIn_act hwaiting.1 (.inl (hwaits hsame hwaiting.2))).imp_right .inr
      · exact absurd hpoll.1 hpolling

/-- Every dispatch queues its callback. -/
theorem leadsTo_queued (left : Nat) : Run.LeadsTo act .init as
    (fun w => d < w.accepted ∧ Phase.queued.rank ≤ (w.dispatches d).phase.rank + left)
    (fun w => d < w.accepted ∧ Phase.queued.rank ≤ (w.dispatches d).phase.rank) := by
  induction left with
  | zero => exact fun n hn => ⟨n, Nat.le_refl n, hn⟩
  | succ left ih =>
    rintro n ⟨hd, hrank⟩
    by_cases hqueued : Phase.queued.rank ≤ ((Run.stateAt act .init as n).dispatches d).phase.rank
    · exact ⟨n, Nat.le_refl n, hd, hqueued⟩
    have hfair := Run.leadsTo_of_fair (I := World.Inv)
      (P := fun w => d < w.accepted ∧ Phase.queued.rank ≤ (w.dispatches d).phase.rank + (left + 1))
      (Q := fun w => d < w.accepted ∧ Phase.queued.rank ≤ (w.dispatches d).phase.rank + left) hinv
      (hgoes.dispatches d) ?_ ?_
    · obtain ⟨m, hm, hnext⟩ := hfair n ⟨⟨hd, hrank⟩, hd, Nat.lt_of_not_le hqueued⟩
      obtain ⟨l, hl, hdone⟩ := ih m hnext
      exact ⟨l, Nat.le_trans hm hl, hdone⟩
    · rintro w action hw ⟨hd, hrank⟩
      have hlater := hw.later_act hd action
      have hle := hlater.rank
      exact .inl ⟨hlater.accepted, by omega⟩
    · rintro w _ - ⟨hd, hrank⟩ ⟨-, hearly⟩ rfl
      obtain ⟨haccepted, hnext⟩ := World.rank_advance hd hearly
      exact ⟨haccepted, by omega⟩

end Runs

/-- A dispatch is for the same request at every later time. -/
theorem rightInvocation_worldAt {as : Nat → Action} (hinv : ∀ n, (worldAt as n).Inv) {n m d : Nat}
    (hm : n ≤ m) (hd : d < (worldAt as n).accepted) :
    d < (worldAt as m).accepted ∧ (worldAt as m).rightInvocation d = (worldAt as n).rightInvocation d := by
  induction hm with
  | refl => exact ⟨hd, rfl⟩
  | @step m _ ih =>
    obtain ⟨hd', hsame⟩ := ih
    have hlater := (hinv m).later_act hd' (as m)
    exact ⟨hlater.accepted, hlater.rightInvocation.trans hsame⟩

/-- The actions, and then the dead agents are looked for over and over. -/
def followed (actions : List Action) (n : Nat) : Action := actions.getD n .cleanupDeadAgents

/-- An agent runs a request, and runs another one when the client of the first is gone. -/
def twoRequests : List Action :=
  [.accept 1 10 20, .advance 0, .advance 0, .advance 0, .advance 0, .check 0, .advance 0, .advance 0,
    .wake 0 true, .run 0, .run 0, .returns 0 false, .run 0, .resume 0, .check 0, .wake 0 false, .run 0,
    .hangUp 0 20, .resume 0, .check 0, .purge 0, .purge 0, .purge 0, .purge 0,
    .accept 2 11 21, .advance 1, .advance 1, .advance 1, .advance 1, .advance 1, .advance 1,
    .wake 0 true, .run 0, .run 0, .returns 0 false, .run 0, .resume 0, .check 0]

def twoRequestsAt (n : Nat) : World := worldAt (followed twoRequests) n

theorem followed_of_le {actions : List Action} {n : Nat} (h : actions.length ≤ n) :
    followed actions n = .cleanupDeadAgents := by
  rw [followed, List.getD_eq_getElem?_getD, List.getElem?_eq_none h]
  rfl

/-- When the actions are over, nothing changes any more. -/
theorem twoRequestsAt_after {n : Nat} (h : 38 ≤ n) :
    (twoRequestsAt n).agents = (twoRequestsAt 38).agents ∧
      (twoRequestsAt n).agentCount = (twoRequestsAt 38).agentCount ∧
      (twoRequestsAt n).dispatches = (twoRequestsAt 38).dispatches ∧
      (twoRequestsAt n).accepted = (twoRequestsAt 38).accepted := by
  induction h with
  | refl => exact ⟨rfl, rfl, rfl, rfl⟩
  | @step n hn ih =>
    have hstep : twoRequestsAt (n + 1) = (twoRequestsAt n).cleanupDeadAgents := by
      show act (twoRequestsAt n) (followed twoRequests n) = _
      rw [followed_of_le hn]
      rfl
    rw [hstep]
    exact ih

theorem twoRequests_proper (n : Nat) : (twoRequestsAt n).Proper (followed twoRequests n) := by
  by_cases hn : n < 38
  · have hproper : ∀ n < 38, (twoRequestsAt n).Proper (followed twoRequests n) := by decide +kernel
    exact hproper n hn
  · rw [followed_of_le (Nat.le_of_not_lt hn)]
    trivial

/-- The last time at which the thread takes its step there. -/
def lastStep : Stage → Nat
  | .loop => 37
  | .purging => 23
  | .polling => 31
  | .callbacks => 35
  | .started => 33
  | .handling => 34
  | .events => 36
  | _ => 0

theorem twoRequests_goesOn : GoesOn (followed twoRequests) where
  dispatches d n := by
    intro hearly
    have hbefore : ∀ n < 38, ∀ d < (twoRequestsAt n).accepted, (twoRequestsAt n).Dispatches d →
        n ≤ 7 + 23 * d ∧ followed twoRequests (7 + 23 * d) = .advance d ∧
          (twoRequestsAt (7 + 23 * d)).Dispatches d := by decide +kernel
    have hafter : ∀ d < (twoRequestsAt 38).accepted, ¬ (twoRequestsAt 38).Dispatches d := by
      decide +kernel
    by_cases hn : n < 38
    · exact ⟨_, hbefore n hn d hearly.1 hearly⟩
    · obtain ⟨-, -, hdispatches, haccepted⟩ := twoRequestsAt_after (Nat.le_of_not_lt hn)
      have hlast : (twoRequestsAt 38).Dispatches d := by
        rw [World.Dispatches, ← hdispatches, ← haccepted]
        exact hearly
      exact absurd hlast (hafter d hlast.1)
  agents a stage hstage n := by
    intro hat
    have hbefore : ∀ n < 38, ∀ a < (twoRequestsAt n).agentCount,
        (twoRequestsAt n).IsAt a ((twoRequestsAt n).agents a).position.stage →
          n ≤ lastStep ((twoRequestsAt n).agents a).position.stage ∧
            (followed twoRequests (lastStep ((twoRequestsAt n).agents a).position.stage)).goesOn a
              ((twoRequestsAt n).agents a).position.stage = true ∧
            (twoRequestsAt (lastStep ((twoRequestsAt n).agents a).position.stage)).IsAt a
              ((twoRequestsAt n).agents a).position.stage := by decide +kernel
    have hafter : ∀ a < (twoRequestsAt 38).agentCount,
        ¬ (twoRequestsAt 38).IsAt a ((twoRequestsAt 38).agents a).position.stage := by decide +kernel
    by_cases hn : n < 38
    · have hlast := hbefore n hn a hat.1
      have hsame : ((twoRequestsAt n).agents a).position.stage = stage := hat.2.1
      rw [hsame] at hlast
      exact ⟨_, hlast hat⟩
    · obtain ⟨hagents, hcount, -, -⟩ := twoRequestsAt_after (Nat.le_of_not_lt hn)
      have hlast : (twoRequestsAt 38).IsAt a stage := by
        rw [World.IsAt, ← hagents, ← hcount]
        exact hat
      have hnot := hafter a hlast.1
      rw [hlast.2.1] at hnot
      exact absurd hlast hnot

/-- The socket is handed over, the thread polls it, and the client is gone before the callback is
queued. -/
def goneBeforeCallback : List Action :=
  [.accept 1 10 20, .advance 0, .advance 0, .advance 0, .advance 0, .advance 0, .check 0, .wake 0 true,
    .run 0, .resume 0, .check 0, .wake 0 false, .run 0, .hangUp 0 20, .resume 0, .check 0, .purge 0,
    .purge 0, .purge 0, .purge 0, .advance 0, .wake 0 true, .run 0, .run 0]

/-- The callback finds null for the module and for the socket. -/
theorem invocations_goneBeforeCallback :
    (worldAt (followed goneBeforeCallback) 24).invocations = [⟨0, none, some 10, none⟩] := by
  decide +kernel

end Oxool.Modules.Agents
