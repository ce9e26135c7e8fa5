import Mathlib.Data.List.Perm.Subperm
import Mathlib.Data.List.Nodup
import Oxool.Net.SocketPoll

/-!
# Who has a socket (`net/Socket.hpp`, `net/Socket.cpp`)

Sockets go from one poll to another while both go over theirs, and a poll erases the ones that left
only when it is done with all. The loop starts at another position each time and goes down from there
around the end: `position size start k` is where it is after `k` steps.

A socket is at one place at a time: polled, waiting to be taken, carried by a callback, held by the
closure of a move, or gone. `World.count` is how often a place has it. Its place changes with the
actions, and what the polls have is what the places say.
-/

set_option autoImplicit false

namespace Oxool.Net.Polling

/-! ## The loop over the sockets -/

/-- Where the loop is after `k` steps. -/
def position (size start k : Nat) : Nat := (start + size - k) % size

theorem position_zero {size start : Nat} (h : start < size) : position size start 0 = start := by
  rw [position, Nat.sub_zero, Nat.add_mod_right, Nat.mod_eq_of_lt h]

theorem position_lt {size start : Nat} (h : start < size) (k : Nat) :
    position size start k < size := Nat.mod_lt _ (Nat.zero_lt_of_lt h)

theorem position_eq {size start k : Nat} (hstart : start < size) (hk : k ≤ size) :
    position size start k = if k ≤ start then start - k else start + size - k := by
  rw [position]
  split
  · next hle =>
    have hsum : start + size - k = start - k + size := by omega
    rw [hsum, Nat.add_mod_right, Nat.mod_eq_of_lt (by omega)]
  · next hle => exact Nat.mod_eq_of_lt (by omega)

theorem position_succ {size start k : Nat} (hstart : start < size) (hk : k < size) :
    position size start (k + 1) =
      if position size start k = 0 then size - 1 else position size start k - 1 := by
  rw [position_eq hstart hk, position_eq hstart (Nat.le_of_lt hk)]
  split_ifs with h1 h2 h3 h3 h4 h4
  all_goals omega

theorem position_inj {size start a b : Nat} (hstart : start < size) (ha : a < size) (hb : b < size)
    (h : position size start a = position size start b) : a = b := by
  rw [position_eq hstart (Nat.le_of_lt ha), position_eq hstart (Nat.le_of_lt hb)] at h
  split_ifs at h
  all_goals omega

/-- No position twice. -/
theorem nodup_positions {size start k : Nat} (hstart : start < size) (hk : k ≤ size) :
    ((List.range k).map (position size start)).Nodup := by
  refine List.Nodup.map_on ?_ List.nodup_range
  intro a ha b hb hab
  exact position_inj hstart (Nat.lt_of_lt_of_le (List.mem_range.mp ha) hk)
    (Nat.lt_of_lt_of_le (List.mem_range.mp hb) hk) hab

/-- After as many steps as there are sockets, every one. -/
theorem positions_perm {size start : Nat} (hstart : start < size) :
    ((List.range size).map (position size start)).Perm (List.range size) := by
  have hsub : (List.range size).map (position size start) ⊆ List.range size := by
    intro i hi
    obtain ⟨k, -, rfl⟩ := List.mem_map.mp hi
    exact List.mem_range.mpr (position_lt hstart k)
  exact (List.subperm_of_subset (nodup_positions hstart (Nat.le_refl size)) hsub).perm_of_length_le
    (by rw [List.length_map])

namespace SocketPoll

variable {capacity : Nat} {fd : Nat → Int} {p : SocketPoll}

/-- The descriptors are those of the first sockets. The loop has been at as many positions as it has
taken steps, and erases none that it has not been at. -/
def Loops (fd : Nat → Int) (p : SocketPoll) : Prop :=
  match p.position with
  | .polled pollFds _ => pollFds <+: p.pollSockets.map fd
  | .drained pollFds => pollFds <+: p.pollSockets.map fd
  | .invoking pollFds _ => pollFds <+: p.pollSockets.map fd
  | .handling pollFds i j toErase visited =>
    pollFds <+: p.pollSockets.map fd ∧
      ∃ start < pollFds.length, j ≤ pollFds.length ∧ i = Polling.position pollFds.length start j ∧
        visited = (List.range j).map (Polling.position pollFds.length start) ∧
        List.Sublist toErase visited
  | _ => True

theorem Loops.new : Loops fd .new := trivial

/-- More sockets that wait, callbacks and bytes make no difference. -/
theorem Loops.of_eq {q : SocketPoll} (h : p.Loops fd) (hposition : q.position = p.position)
    (hsockets : q.pollSockets = p.pollSockets) : q.Loops fd := by
  unfold Loops at h ⊢
  rw [hposition, hsockets]
  exact h

theorem Loops.insertNewSocket (h : p.Loops fd) (socket : Nat) :
    (p.insertNewSocket capacity socket).Loops fd := by
  unfold SocketPoll.insertNewSocket
  dsimp only
  split
  · exact h.of_eq rfl rfl
  · exact h.of_eq rfl rfl

theorem Loops.addCallback (h : p.Loops fd) (callback : Callback) :
    (p.addCallback capacity callback).Loops fd := by
  unfold SocketPoll.addCallback
  dsimp only
  split
  · exact h.of_eq rfl rfl
  · exact h.of_eq rfl rfl

theorem Loops.setupPollFds (h : p.Loops fd) : (p.setupPollFds fd).Loops fd := by
  unfold SocketPoll.setupPollFds
  split
  · exact List.prefix_refl _
  · exact h

theorem Loops.readPipe (h : p.Loops fd) : p.readPipe.Loops fd := by
  have hp := h
  unfold SocketPoll.readPipe
  split
  · next pollFds hposition =>
    simp only [Loops, hposition] at hp
    exact hp
  · next pollFds hposition =>
    simp only [Loops, hposition] at hp
    exact hp
  · exact h

theorem Loops.take (h : p.Loops fd) : p.take.Loops fd := by
  have hp := h
  unfold SocketPoll.take
  split
  · next pollFds hposition =>
    simp only [Loops, hposition] at hp
    simp only [Loops, List.map_append]
    exact hp.trans (List.prefix_append _ _)
  · exact h

theorem Loops.invoke (h : p.Loops fd) : (p.invoke capacity).Loops fd := by
  have hp := h
  unfold SocketPoll.invoke
  split
  · next pollFds callback rest hposition =>
    simp only [Loops, hposition] at hp
    have hrun : Loops fd { p with
        position := .invoking pollFds rest
        invoked := p.invoked ++ [callback] } := hp
    cases callback.socket with
    | none => exact hrun
    | some socket => exact hrun.insertNewSocket socket
  · next pollFds hposition =>
    simp only [Loops, hposition] at hp
    dsimp only
    split
    · next hsize =>
      have hstart : (if p.pollStartIndex + 1 > pollFds.length - 1 then 0
          else p.pollStartIndex + 1) < pollFds.length := by
        split
        · exact hsize
        · omega
      exact ⟨hp, _, hstart, Nat.zero_le _, (position_zero hstart).symm, rfl, .slnil⟩
    · trivial
  · exact h

/-- The socket that the loop is at is there, and it is the one whose descriptor was polled. -/
theorem Loops.current (h : p.Loops fd) {pollFds : List Int} {i j : Nat} {toErase visited : List Nat}
    (hposition : p.position = .handling pollFds i j toErase visited) (hj : j < pollFds.length) :
    ∃ socket, p.pollSockets[i]? = some socket ∧ pollFds[i]? = some (fd socket) ∧
      p.current fd = some socket := by
  simp only [Loops, hposition] at h
  obtain ⟨hbefore, start, hstart, -, hi, -, -⟩ := h
  have hlt : i < pollFds.length := hi ▸ position_lt hstart j
  have hfd : pollFds[i]? = (p.pollSockets.map fd)[i]? :=
    (List.prefix_iff_getElem?.mp hbefore i hlt).symm ▸ (by simp [hlt])
  rw [List.getElem?_map] at hfd
  cases hsocket : p.pollSockets[i]? with
  | none => simp [hsocket, hlt] at hfd
  | some socket =>
    rw [hsocket, Option.map_some] at hfd
    refine ⟨socket, rfl, hfd, ?_⟩
    simp [SocketPoll.current, hposition, hj, hsocket, hfd]

theorem Loops.next (h : p.Loops fd) (stays : Bool) : (p.next true stays).Loops fd := by
  have hp := h
  unfold SocketPoll.next
  split
  · next pollFds i j toErase visited hposition =>
    simp only [Loops, hposition] at hp
    split
    · next hj =>
      obtain ⟨hbefore, start, hstart, -, hi, hvisited, hsub⟩ := hp
      refine ⟨hbefore, start, hstart, hj, ?_, ?_, ?_⟩
      · rw [position_succ hstart hj, hi]
      · rw [if_pos rfl, List.range_succ, List.map_append, hvisited, hi]
        rfl
      · rw [if_pos rfl]
        split
        · exact hsub.trans (List.sublist_append_left _ _)
        · exact hsub.append (.refl _)
    · exact h
  · exact h

theorem Loops.erase (h : p.Loops fd) : p.erase.Loops fd := by
  unfold SocketPoll.erase
  split
  · split
    · exact h
    · trivial
  · exact h

theorem Loops.removeSockets (h : p.Loops fd) : p.removeSockets.Loops fd := by
  unfold SocketPoll.removeSockets
  split
  · trivial
  · exact h

/-- Every socket that was polled is handed to `handlePoll` once: the loop is at a socket whose
descriptor was polled until it has been at all positions, and at none of them twice. -/
def GoesOver (fd : Nat → Int) (p : SocketPoll) : Prop :=
  match p.position with
  | .handling pollFds i j _ visited =>
    visited.Nodup ∧ (∃ rest, (visited ++ rest).Perm (List.range pollFds.length)) ∧
      (j < pollFds.length → i ∉ visited ∧
        ∃ socket, p.current fd = some socket ∧ pollFds[i]? = some (fd socket)) ∧
      (pollFds.length ≤ j → visited.Perm (List.range pollFds.length))
  | _ => True

theorem Loops.goesOver (h : p.Loops fd) : p.GoesOver fd := by
  have hp := h
  unfold GoesOver
  split
  · next pollFds i j toErase visited hposition =>
    simp only [Loops, hposition] at hp
    obtain ⟨hbefore, start, hstart, hj, hi, hvisited, -⟩ := hp
    have hrange : List.range j ++ List.range' j (pollFds.length - j) =
        List.range pollFds.length := by
      have happend := List.range'_append_1 (s := 0) (m := j) (n := pollFds.length - j)
      rw [Nat.zero_add, Nat.add_sub_cancel' hj] at happend
      rw [List.range_eq_range', List.range_eq_range', happend]
    have hsplit : (List.range pollFds.length).map (Polling.position pollFds.length start) =
        visited ++ ((List.range' j (pollFds.length - j)).map
          (Polling.position pollFds.length start)) := by
      rw [hvisited, ← List.map_append, hrange]
    refine ⟨hvisited ▸ nodup_positions hstart hj, ⟨_, hsplit ▸ positions_perm hstart⟩, ?_, ?_⟩
    · intro hlt
      refine ⟨?_, ?_⟩
      · intro hmem
        rw [hvisited, List.mem_map] at hmem
        obtain ⟨k, hk, heq⟩ := hmem
        have hkj := List.mem_range.mp hk
        have := position_inj hstart (Nat.lt_trans hkj hlt) hlt (heq.trans hi)
        exact Nat.lt_irrefl k (this ▸ hkj)
      · obtain ⟨socket, -, hfd, hcurrent⟩ := h.current hposition hlt
        exact ⟨socket, hcurrent, hfd⟩
    · intro hle
      rw [hvisited, Nat.le_antisymm hj hle]
      exact positions_perm hstart
  · trivial

end SocketPoll

/-- In every poll. -/
def AllLoop (fd : Nat → Int) (w : World) : Prop := ∀ n, (w.polls n).Loops fd

theorem AllLoop.setPoll {fd : Nat → Int} {w : World} (h : AllLoop fd w) (n : Nat) {p : SocketPoll}
    (hp : p.Loops fd) : AllLoop fd (w.setPoll n p) := by
  intro m
  rw [World.setPoll]
  dsimp only
  by_cases hm : m = n
  · rw [hm, Function.update_self]
    exact hp
  · rw [Function.update_of_ne hm]
    exact h m

/-- A step of the loop over the sockets, at a socket or past the last one. -/
theorem SocketPoll.Loops.next_of_current_eq_none {fd : Nat → Int} {p : SocketPoll} (h : p.Loops fd)
    (hcurrent : p.current fd = none) : p.next false true = p := by
  unfold SocketPoll.next
  split
  · next pollFds i j toErase visited hposition =>
    split
    · next hj =>
      obtain ⟨socket, -, -, hsome⟩ := h.current hposition hj
      rw [hcurrent] at hsome
      cases hsome
    · rfl
  · rfl

theorem AllLoop.act {capacity : Nat} {fd : Nat → Int} {w : World} (h : AllLoop fd w) (a : Action) :
    AllLoop fd (act capacity fd w a) := by
  cases a with
  | insertNewSocket n => exact h.setPoll n ((h n).insertNewSocket w.sockets)
  | addCallback n => exact h.setPoll n ((h n).addCallback _)
  | wakeup n => exact h.setPoll n ((h n).of_eq rfl rfl)
  | setupPollFds n => exact h.setPoll n (h n).setupPollFds
  | readPipe n => exact h.setPoll n (h n).readPipe
  | take n => exact h.setPoll n (h n).take
  | invoke n => exact h.setPoll n (h n).invoke
  | handle n disposition =>
    have hnext := fun stays => h.setPoll n ((h n).next stays)
    rw [Polling.act, World.handle]
    dsimp only
    cases hcurrent : (w.polls n).current fd with
    | none => exact h.setPoll n (((h n).next_of_current_eq_none hcurrent).symm ▸ h n)
    | some socket =>
      cases disposition with
      | keep => exact hnext true
      | closed => exact hnext false
      | move => exact hnext false
      | transfer m =>
        have hw := hnext false
        exact hw.setPoll m ((hw m).addCallback _)
  | erase n => exact h.setPoll n (h n).erase
  | place n socket =>
    rw [Polling.act, World.place]
    split
    · exact h.setPoll n ((h n).insertNewSocket socket)
    · exact h
  | drop socket =>
    rw [Polling.act, World.drop]
    split
    · exact h
    · exact h
  | removeSockets n =>
    rw [Polling.act, World.removeSockets]
    dsimp only
    split
    · exact h.setPoll n (h n).removeSockets
    · exact h

/-- **A call of `poll` goes over every socket once.** In every interleaving, wherever the loop starts,
whatever becomes of the sockets it has been at and whatever is inserted meanwhile, the loop is at one
socket after the other that was polled, finds it with the descriptor that was polled, and has been
at each of them when it ends. -/
theorem goesOver_all (capacity : Nat) (fd : Nat → Int) (acts : List Action) :
    Run.Always (act capacity fd) (fun w => ∀ n, (w.polls n).GoesOver fd) .init acts :=
  Run.always_of_inv (fun _ (h : AllLoop fd _) n => (h n).goesOver) (fun _ a h => h.act a)
    (fun _ => .new)

/-! ## Places -/

/-- What a poll can have a socket for. -/
inductive Kind where
  | polled
  | new
  | callback
deriving DecidableEq

inductive Place where
  | poll (n : Nat) (kind : Kind)
  | moving
  | gone
deriving DecidableEq

namespace SocketPoll

variable {capacity : Nat} {fd : Nat → Int} (p : SocketPoll)

/-- The sockets that a poll has, those it will not erase. -/
def holds : Kind → List Nat
  | .polled => kept p.toErase 0 p.pollSockets
  | .new => p.newSockets
  | .callback => (p.taken ++ p.newCallbacks).filterMap Callback.socket

variable {p}

theorem holds_insertNewSocket (socket : Nat) (kind : Kind) :
    (p.insertNewSocket capacity socket).holds kind =
      p.holds kind ++ (if kind = .new then [socket] else []) := by
  unfold SocketPoll.insertNewSocket
  dsimp only
  cases p.wasEmpty with
  | true => cases kind with
    | polled => exact (List.append_nil _).symm
    | new => rfl
    | callback => exact (List.append_nil _).symm
  | false => cases kind with
    | polled => exact (List.append_nil _).symm
    | new => rfl
    | callback => exact (List.append_nil _).symm

theorem holds_addCallback (callback : Callback) (kind : Kind) :
    (p.addCallback capacity callback).holds kind =
      p.holds kind ++ (if kind = .callback then callback.socket.toList else []) := by
  have hlist : ((p.taken ++ (p.newCallbacks ++ [callback])).filterMap Callback.socket) =
      (p.taken ++ p.newCallbacks).filterMap Callback.socket ++ callback.socket.toList := by
    rw [← List.append_assoc, List.filterMap_append]
    cases hsocket : callback.socket with
    | none => simp [hsocket]
    | some socket => simp [hsocket]
  unfold SocketPoll.addCallback
  dsimp only
  cases p.wasEmpty with
  | true => cases kind with
    | polled => exact (List.append_nil _).symm
    | new => exact (List.append_nil _).symm
    | callback => exact hlist
  | false => cases kind with
    | polled => exact (List.append_nil _).symm
    | new => exact (List.append_nil _).symm
    | callback => exact hlist

theorem holds_setupPollFds (kind : Kind) : (p.setupPollFds fd).holds kind = p.holds kind := by
  unfold SocketPoll.setupPollFds
  split
  · next hposition =>
    cases kind with
    | polled => simp only [holds, toErase, hposition]
    | new => rfl
    | callback => simp only [holds, taken, hposition]
  · rfl

theorem holds_readPipe (kind : Kind) : p.readPipe.holds kind = p.holds kind := by
  unfold SocketPoll.readPipe
  split
  · next hposition =>
    cases kind with
    | polled => simp only [holds, toErase, hposition]
    | new => simp only [holds]
    | callback => simp only [holds, taken, hposition]
  · next hposition =>
    cases kind with
    | polled => simp only [holds, toErase, hposition]
    | new => simp only [holds]
    | callback => simp only [holds, taken, hposition]
  · rfl

/-- What waits is polled, once the thread is to take it. -/
theorem holds_take {pollFds : List Int} (hposition : p.position = .drained pollFds) (kind : Kind) :
    p.take.holds kind = match kind with
      | .polled => p.holds .polled ++ p.holds .new
      | .new => []
      | .callback => p.holds .callback := by
  cases kind with
  | polled => simp only [SocketPoll.take, hposition, holds, toErase, kept_nil]
  | new => simp only [SocketPoll.take, hposition, holds]
  | callback => simp only [SocketPoll.take, hposition, holds, taken, List.append_nil, List.nil_append]

theorem take_of_ne (hposition : ∀ pollFds, p.position ≠ .drained pollFds) : p.take = p := by
  unfold SocketPoll.take
  split
  · next pollFds heq => exact absurd heq (hposition pollFds)
  · rfl

/-- The first callback is next, and it carries a socket. -/
def Inserts (p : SocketPoll) (socket : Nat) : Prop :=
  ∃ pollFds callback rest, p.position = .invoking pollFds (callback :: rest) ∧
    callback.socket = some socket

/-- A callback that is run gives its socket to those that wait. -/
theorem holds_invoke_of_inserts (capacity : Nat) {socket : Nat} (h : p.Inserts socket) :
    (p.invoke capacity).holds .polled = p.holds .polled ∧
      (p.invoke capacity).holds .new = p.holds .new ++ [socket] ∧
      p.holds .callback = socket :: (p.invoke capacity).holds .callback := by
  obtain ⟨pollFds, callback, rest, hposition, hsocket⟩ := h
  have hinvoke : p.invoke capacity = SocketPoll.insertNewSocket capacity { p with
      position := .invoking pollFds rest
      invoked := p.invoked ++ [callback] } socket := by
    simp only [SocketPoll.invoke, hposition, hsocket]
  rw [hinvoke, holds_insertNewSocket, holds_insertNewSocket, holds_insertNewSocket]
  refine ⟨?_, rfl, ?_⟩
  · simp [holds, toErase, hposition]
  · simp [holds, taken, hposition, hsocket]

theorem holds_invoke_of_not_inserts (h : ∀ socket, ¬ p.Inserts socket) (kind : Kind) :
    (p.invoke capacity).holds kind = p.holds kind := by
  unfold SocketPoll.invoke
  split
  · next pollFds callback rest hposition =>
    cases hsocket : callback.socket with
    | some socket => exact absurd ⟨pollFds, callback, rest, hposition, hsocket⟩ (h socket)
    | none =>
      cases kind with
      | polled => simp only [holds, toErase, hposition]
      | new => rfl
      | callback => simp [holds, taken, hposition, hsocket]
  · next pollFds hposition =>
    dsimp only
    split
    · cases kind with
      | polled => simp only [holds, toErase, hposition]
      | new => rfl
      | callback => simp only [holds, taken, hposition]
    · cases kind with
      | polled => simp only [holds, toErase, hposition]
      | new => rfl
      | callback => simp only [holds, taken, hposition]
  · rfl

theorem holds_next_of_stays (handled : Bool) (kind : Kind) :
    (p.next handled true).holds kind = p.holds kind := by
  unfold SocketPoll.next
  split
  · next hposition =>
    split
    · cases kind with
      | polled => simp only [holds, toErase, hposition, if_true]
      | new => rfl
      | callback => simp only [holds, taken, hposition]
    · rfl
  · rfl

/-- What does not stay is no longer among those that are kept. -/
theorem Loops.holds_next (h : p.Loops fd) {socket : Nat} (hcurrent : p.current fd = some socket) :
    (p.holds .polled).Perm (socket :: (p.next true false).holds .polled) ∧
      (p.next true false).holds .new = p.holds .new ∧
      (p.next true false).holds .callback = p.holds .callback := by
  cases hposition : p.position with
  | handling pollFds i j toErase visited =>
    by_cases hj : j < pollFds.length
    · obtain ⟨socket', hsocket, -, hcurrent'⟩ := h.current hposition hj
      have heq : socket' = socket := Option.some.inj (hcurrent'.symm.trans hcurrent)
      have hgoes := h.goesOver
      simp only [Loops, hposition] at h
      simp only [GoesOver, hposition] at hgoes
      obtain ⟨-, start, -, -, -, hvisited, hsub⟩ := h
      have hnot : 0 + i ∉ toErase := by
        rw [Nat.zero_add]
        exact fun hi => (hgoes.2.2.1 hj).1 (hsub.subset hi)
      have hperm := kept_perm_cons hsocket hnot
      rw [Nat.zero_add, heq] at hperm
      refine ⟨?_, ?_, ?_⟩
      · simpa only [SocketPoll.next, hposition, hj, if_true, holds, SocketPoll.toErase,
          Bool.false_eq_true, if_false] using hperm
      · simp only [SocketPoll.next, hposition, hj, if_true, holds]
      · simp only [SocketPoll.next, hposition, hj, if_true, holds, taken]
    · simp [SocketPoll.current, hposition, hj] at hcurrent
  | loop => simp [SocketPoll.current, hposition] at hcurrent
  | polled pollFds pipe => simp [SocketPoll.current, hposition] at hcurrent
  | drained pollFds => simp [SocketPoll.current, hposition] at hcurrent
  | invoking pollFds invoke => simp [SocketPoll.current, hposition] at hcurrent
  | finished => simp [SocketPoll.current, hposition] at hcurrent

/-- What is erased is what was not kept. -/
theorem Loops.holds_erase (h : p.Loops fd) (kind : Kind) : p.erase.holds kind = p.holds kind := by
  unfold SocketPoll.erase
  split
  · next pollFds i j toErase visited hposition =>
    have hgoes := h.goesOver
    simp only [Loops, hposition] at h
    simp only [GoesOver, hposition] at hgoes
    obtain ⟨-, start, -, -, -, hvisited, hsub⟩ := h
    split
    · rfl
    · cases kind with
      | polled =>
        simp only [holds, SocketPoll.toErase, hposition, kept_nil]
        exact eraseAll_insertionSort (hsub.nodup hgoes.1) _
      | new => rfl
      | callback => simp only [holds, taken, hposition]
  · rfl

end SocketPoll

namespace World

variable {capacity : Nat} {fd : Nat → Int} {w : World}

/-- The sockets at a place. -/
def holds (w : World) : Place → List Nat
  | .poll n kind => (w.polls n).holds kind
  | .moving => w.moving
  | .gone => w.gone

def count (w : World) (place : Place) (socket : Nat) : Nat := (w.holds place).count socket

theorem count_setPoll (n : Nat) (p : SocketPoll) (m : Nat) (kind : Kind) (socket : Nat) :
    (w.setPoll n p).count (.poll m kind) socket =
      if m = n then (p.holds kind).count socket else w.count (.poll m kind) socket := by
  simp only [count, holds, setPoll]
  split
  · next heq => rw [heq, Function.update_self]
  · next hne => rw [Function.update_of_ne hne]

/-- Every socket that was ever made is at one place, and once there. -/
def SocketsKept (w : World) : Prop :=
  ∃ place : Nat → Option Place, (∀ socket, place socket = none ↔ w.sockets ≤ socket) ∧
    ∀ x socket, w.count x socket = if place socket = some x then 1 else 0

theorem socketsKept_init : SocketsKept init := by
  refine ⟨fun _ => none, fun socket => ⟨fun _ => Nat.zero_le socket, fun _ => rfl⟩, ?_⟩
  intro x socket
  cases x with
  | poll n kind => cases kind with
    | polled => rfl
    | new => rfl
    | callback => rfl
  | moving => rfl
  | gone => rfl

theorem SocketsKept.of_eq {w' : World} (h : w.SocketsKept) (hsockets : w'.sockets = w.sockets)
    (hcount : ∀ x socket, w'.count x socket = w.count x socket) : w'.SocketsKept := by
  obtain ⟨place, hplace, hw⟩ := h
  exact ⟨place, hsockets ▸ hplace, fun x socket => (hcount x socket).trans (hw x socket)⟩

/-- A new socket is at one place. -/
theorem SocketsKept.make {w' : World} (h : w.SocketsKept) {x : Place}
    (hsockets : w'.sockets = w.sockets + 1)
    (hcount : ∀ z socket, w'.count z socket =
      w.count z socket + if z = x ∧ socket = w.sockets then 1 else 0) : w'.SocketsKept := by
  obtain ⟨place, hplace, hw⟩ := h
  refine ⟨Function.update place w.sockets (some x), ?_, ?_⟩
  · intro socket
    rw [hsockets]
    by_cases heq : socket = w.sockets
    · simp [heq]
    · rw [Function.update_of_ne heq, hplace]
      omega
  · intro z socket
    rw [hcount, hw]
    by_cases heq : socket = w.sockets
    · rw [heq, Function.update_self, (hplace w.sockets).mpr (Nat.le_refl _)]
      simp [eq_comm]
    · rw [Function.update_of_ne heq, if_neg (c := z = x ∧ socket = w.sockets) fun hx => heq hx.2]
      rfl

/-- A socket goes from one place to another. -/
theorem SocketsKept.move {w' : World} (h : w.SocketsKept) {x y : Place} {s : Nat} (hxy : x ≠ y)
    (hsockets : w'.sockets = w.sockets) (hs : 0 < w.count x s)
    (hcount : ∀ z socket, w'.count z socket + (if z = x ∧ socket = s then 1 else 0) =
      w.count z socket + if z = y ∧ socket = s then 1 else 0) : w'.SocketsKept := by
  obtain ⟨place, hplace, hw⟩ := h
  have hx : place s = some x := by
    rw [hw] at hs
    by_contra hne
    rw [if_neg hne] at hs
    exact Nat.lt_irrefl 0 hs
  refine ⟨Function.update place s (some y), ?_, ?_⟩
  · intro socket
    rw [hsockets]
    by_cases heq : socket = s
    · rw [heq, Function.update_self, ← hplace, hx]
      simp
    · rw [Function.update_of_ne heq, hplace]
  · intro z socket
    have hz := hcount z socket
    rw [hw] at hz
    by_cases heq : socket = s
    · rw [heq, hx] at hz
      rw [heq, Function.update_self]
      by_cases hzx : z = x
      · have hne : ¬ (some y = some z) := by
          rw [hzx]
          simp [hxy.symm]
        rw [if_neg hne]
        simpa [hzx, hxy] using hz
      · by_cases hzy : z = y
        · simpa [hzy, hxy, Ne.symm hxy] using hz
        · have hne : ¬ (some y = some z) := by simp [Ne.symm hzy]
          rw [if_neg hne]
          simpa [hzx, hzy, Ne.symm hzx] using hz
    · rw [Function.update_of_ne heq]
      simpa [heq] using hz

/-- All sockets of one place go to another. -/
theorem SocketsKept.merge {w' : World} (h : w.SocketsKept) {x y : Place} (hxy : x ≠ y)
    (hsockets : w'.sockets = w.sockets)
    (hcount : ∀ z socket, w'.count z socket = if z = x then 0
      else w.count z socket + if z = y then w.count x socket else 0) : w'.SocketsKept := by
  obtain ⟨place, hplace, hw⟩ := h
  refine ⟨fun socket => if place socket = some x then some y else place socket, ?_, ?_⟩
  · intro socket
    rw [hsockets, ← hplace]
    dsimp only
    split
    · next heq => simp [heq]
    · rfl
  · intro z socket
    rw [hcount, hw, hw]
    by_cases hx : place socket = some x
    · by_cases hzx : z = x
      · simp [hx, hzx, hxy.symm]
      · by_cases hzy : z = y
        · simp [hx, hzy, hxy, Ne.symm hxy]
        · simp [hx, hzx, hzy, Ne.symm hzx, Ne.symm hzy]
    · by_cases hzx : z = x
      · simp [hx, hzx]
      · simp [hx, hzx]

theorem count_cons_eq (a s : Nat) (l : List Nat) :
    (a :: l).count s = l.count s + if s = a then 1 else 0 := by
  by_cases h : s = a
  · simp [h]
  · simp [h, Ne.symm h]

theorem count_singleton_eq (a s : Nat) : [a].count s = if s = a then 1 else 0 := by
  rw [count_cons_eq, List.count_nil, Nat.zero_add]

/-- A poll takes a socket that a place had, or that is new. -/
theorem count_insertNewSocket (capacity n socket : Nat) (z : Place) (s : Nat) :
    (w.setPoll n ((w.polls n).insertNewSocket capacity socket)).count z s =
      w.count z s + if z = .poll n .new ∧ s = socket then 1 else 0 := by
  cases z with
  | poll m kind =>
    rw [count_setPoll]
    split
    · next hm =>
      rw [hm, SocketPoll.holds_insertNewSocket, List.count_append, count, holds]
      cases kind with
      | polled => simp
      | new => simp [count_singleton_eq]
      | callback => simp
    · next hm => simp [hm]
  | moving => simp [count, holds, setPoll]
  | gone => simp [count, holds, setPoll]

theorem count_addCallback (n socket : Nat) (z : Place) (s : Nat) :
    (w.addCallback capacity n (some socket)).count z s =
      w.count z s + if z = .poll n .callback ∧ s = socket then 1 else 0 := by
  cases z with
  | poll m kind =>
    have hset : (w.addCallback capacity n (some socket)).count (.poll m kind) s =
      (w.setPoll n ((w.polls n).addCallback capacity ⟨w.callbacks, some socket⟩)).count
        (.poll m kind) s := rfl
    rw [hset, count_setPoll]
    split
    · next hm =>
      rw [hm, SocketPoll.holds_addCallback, List.count_append, count, holds]
      cases kind with
      | polled => simp
      | new => simp
      | callback => simp [count_singleton_eq]
    · next hm => simp [hm]
  | moving => simp [count, holds, addCallback, setPoll]
  | gone => simp [count, holds, addCallback, setPoll]

/-- What changes nothing in a poll changes no place. -/
theorem count_setPoll_of_holds {n : Nat} {p : SocketPoll}
    (h : ∀ kind, p.holds kind = (w.polls n).holds kind) (z : Place) (s : Nat) :
    (w.setPoll n p).count z s = w.count z s := by
  cases z with
  | poll m kind =>
    rw [count_setPoll]
    split
    · next hm => rw [h, hm, count, holds]
    · rfl
  | moving => rfl
  | gone => rfl

/-- The socket that the loop is at leaves the poll, for a place that is not in any. -/
theorem count_next {n : Nat} (hloops : (w.polls n).Loops fd) {socket : Nat}
    (hcurrent : (w.polls n).current fd = some socket) (z : Place) (s : Nat) :
    (w.setPoll n ((w.polls n).next true false)).count z s +
      (if z = .poll n .polled ∧ s = socket then 1 else 0) = w.count z s := by
  obtain ⟨hpolled, hnew, hcallback⟩ := hloops.holds_next hcurrent
  cases z with
  | poll m kind =>
    rw [count_setPoll]
    by_cases hm : m = n
    · rw [if_pos hm, hm, count, holds]
      cases kind with
      | polled =>
        rw [hpolled.count_eq, count_cons_eq]
        simp only [true_and]
      | new => simp [hnew]
      | callback => simp [hcallback]
    · simp [hm]
  | moving => simp [count, holds, setPoll]
  | gone => simp [count, holds, setPoll]

theorem current_mem {n : Nat} (hloops : (w.polls n).Loops fd) {socket : Nat}
    (hcurrent : (w.polls n).current fd = some socket) : 0 < w.count (.poll n .polled) socket := by
  have h := count_next hloops hcurrent (.poll n .polled) socket
  rw [if_pos ⟨rfl, rfl⟩] at h
  omega

theorem count_erase_moving {socket : Nat} (h : socket ∈ w.moving) (s : Nat) :
    (w.moving.erase socket).count s + (if s = socket then 1 else 0) = w.moving.count s := by
  rw [List.count_erase]
  by_cases hs : s = socket
  · have hpos : 0 < w.moving.count socket := List.count_pos_iff.mpr h
    simp only [hs, beq_self_eq_true, if_true]
    omega
  · simp [hs, Ne.symm hs]

theorem SocketsKept.handle (h : w.SocketsKept) (hloops : AllLoop fd w) (n : Nat)
    (disposition : Disposition) : (w.handle capacity fd n disposition).SocketsKept := by
  rw [World.handle]
  dsimp only
  cases hcurrent : (w.polls n).current fd with
  | none => exact h.of_eq rfl (count_setPoll_of_holds (SocketPoll.holds_next_of_stays false))
  | some socket =>
    have hnext := count_next (hloops n) hcurrent
    have hmem := current_mem (hloops n) hcurrent
    cases disposition with
    | keep => exact h.of_eq rfl (count_setPoll_of_holds (SocketPoll.holds_next_of_stays true))
    | closed =>
      refine h.move (x := .poll n .polled) (y := .gone) (s := socket) (by simp) rfl hmem ?_
      intro z s
      rw [← hnext z s]
      cases z with
      | poll m kind => simp [count, holds]
      | moving => simp [count, holds]
      | gone => simp [count, holds, setPoll, count_singleton_eq]
    | move =>
      refine h.move (x := .poll n .polled) (y := .moving) (s := socket) (by simp) rfl hmem ?_
      intro z s
      rw [← hnext z s]
      cases z with
      | poll m kind => simp [count, holds]
      | moving => simp [count, holds, setPoll, count_singleton_eq]
      | gone => simp [count, holds]
    | transfer m =>
      refine h.move (x := .poll n .polled) (y := .poll m .callback) (s := socket) (by simp) rfl
        hmem ?_
      intro z s
      rw [count_addCallback, ← hnext z s]
      omega

theorem SocketsKept.invoke (h : w.SocketsKept) (n : Nat) :
    (w.setPoll n ((w.polls n).invoke capacity)).SocketsKept := by
  by_cases hinserts : ∃ socket, (w.polls n).Inserts socket
  · obtain ⟨socket, hsocket⟩ := hinserts
    obtain ⟨hpolled, hnew, hcallback⟩ := SocketPoll.holds_invoke_of_inserts
      capacity hsocket
    refine h.move (x := .poll n .callback) (y := .poll n .new) (s := socket) (by simp) rfl ?_ ?_
    · rw [count, holds, hcallback]
      simp
    · intro z s
      cases z with
      | poll m kind =>
        rw [count_setPoll]
        by_cases hm : m = n
        · rw [if_pos hm, hm, count, holds]
          cases kind with
          | polled => simp [hpolled]
          | new => simp [hnew, count_singleton_eq]
          | callback =>
            rw [hcallback, count_cons_eq]
            simp
        · simp [hm]
      | moving => simp [count, holds, setPoll]
      | gone => simp [count, holds, setPoll]
  · exact h.of_eq rfl (count_setPoll_of_holds
      (SocketPoll.holds_invoke_of_not_inserts fun socket hs => hinserts ⟨socket, hs⟩))

theorem SocketsKept.take (h : w.SocketsKept) (n : Nat) :
    (w.setPoll n (w.polls n).take).SocketsKept := by
  by_cases hdrained : ∃ pollFds, (w.polls n).position = .drained pollFds
  · obtain ⟨pollFds, hposition⟩ := hdrained
    refine h.merge (x := .poll n .new) (y := .poll n .polled) (by simp) rfl ?_
    intro z s
    cases z with
    | poll m kind =>
      rw [count_setPoll, SocketPoll.holds_take hposition]
      by_cases hm : m = n
      · cases kind with
        | polled => simp [hm, count, holds]
        | new => simp [hm]
        | callback => simp [hm, count, holds]
      · simp [hm]
    | moving => simp [count, holds, setPoll]
    | gone => simp [count, holds, setPoll]
  · rw [SocketPoll.take_of_ne fun pollFds hp => hdrained ⟨pollFds, hp⟩]
    exact h.of_eq rfl (count_setPoll_of_holds fun _ => rfl)

theorem SocketsKept.place (h : w.SocketsKept) (n socket : Nat) :
    (w.place capacity n socket).SocketsKept := by
  rw [World.place]
  split
  · next hmem =>
    refine h.move (x := .moving) (y := .poll n .new) (s := socket) (by simp) rfl
      (List.count_pos_iff.mpr hmem) ?_
    intro z s
    rw [← count_insertNewSocket capacity n socket z s]
    cases z with
    | poll m kind => simp [count, holds, setPoll]
    | moving =>
      have herase := count_erase_moving hmem s
      simpa [count, holds, setPoll] using herase
    | gone => simp [count, holds, setPoll]
  · exact h

theorem SocketsKept.drop (h : w.SocketsKept) (socket : Nat) : (w.drop socket).SocketsKept := by
  rw [World.drop]
  split
  · next hmem =>
    refine h.move (x := .moving) (y := .gone) (s := socket) (by simp) rfl
      (List.count_pos_iff.mpr hmem) ?_
    intro z s
    cases z with
    | poll m kind => simp [count, holds]
    | moving =>
      have herase := count_erase_moving hmem s
      simpa [count, holds] using herase
    | gone => simp [count, holds, count_singleton_eq]
  · exact h

/-- The sockets that wait go first, then those that are polled. -/
theorem SocketsKept.removeSockets (h : w.SocketsKept) (n : Nat) :
    (w.removeSockets n).SocketsKept := by
  rw [World.removeSockets]
  dsimp only
  split
  · next hposition =>
    have hfirst : SocketsKept { w.setPoll n { w.polls n with newSockets := [] } with
        gone := w.gone ++ (w.polls n).newSockets } := by
      refine h.merge (x := .poll n .new) (y := .gone) (by simp) rfl ?_
      intro z s
      cases z with
      | poll m kind =>
        by_cases hm : m = n
        · cases kind with
          | polled => simp [hm, count, holds, setPoll, SocketPoll.holds, SocketPoll.toErase]
          | new => simp [hm, count, holds, setPoll, SocketPoll.holds]
          | callback => simp [hm, count, holds, setPoll, SocketPoll.holds, SocketPoll.taken]
        · simp [hm, count, holds, setPoll]
      | moving => simp [count, holds, setPoll]
      | gone => simp [count, holds, SocketPoll.holds]
    refine hfirst.merge (x := .poll n .polled) (y := .gone) (by simp) rfl ?_
    intro z s
    cases z with
    | poll m kind =>
      by_cases hm : m = n
      · cases kind with
        | polled => simp [hm, count, holds, setPoll, SocketPoll.holds, SocketPoll.toErase,
            SocketPoll.removeSockets, hposition, kept_nil]
        | new => simp [hm, count, holds, setPoll, SocketPoll.holds, SocketPoll.removeSockets,
            hposition]
        | callback => simp [hm, count, holds, setPoll, SocketPoll.holds, SocketPoll.taken,
            SocketPoll.removeSockets, hposition]
      · simp [hm, count, holds, setPoll]
    | moving => simp [count, holds, setPoll]
    | gone =>
      simp [count, holds, setPoll, SocketPoll.holds, SocketPoll.toErase, hposition, kept_nil]
      omega
  · exact h

theorem SocketsKept.act (h : w.SocketsKept) (hloops : AllLoop fd w) (a : Action) :
    (act capacity fd w a).SocketsKept := by
  cases a with
  | insertNewSocket n =>
    refine h.make (x := .poll n .new) rfl ?_
    intro z s
    rw [← count_insertNewSocket capacity n w.sockets z s]
    rfl
  | addCallback n =>
    refine h.of_eq rfl (count_setPoll_of_holds fun kind => ?_)
    rw [SocketPoll.holds_addCallback]
    simp
  | wakeup n => exact h.of_eq rfl (count_setPoll_of_holds fun kind => by cases kind <;> rfl)
  | setupPollFds n => exact h.of_eq rfl (count_setPoll_of_holds SocketPoll.holds_setupPollFds)
  | readPipe n => exact h.of_eq rfl (count_setPoll_of_holds SocketPoll.holds_readPipe)
  | take n => exact h.take n
  | invoke n => exact h.invoke n
  | handle n disposition => exact h.handle hloops n disposition
  | erase n => exact h.of_eq rfl (count_setPoll_of_holds (hloops n).holds_erase)
  | place n socket => exact h.place n socket
  | drop socket => exact h.drop socket
  | removeSockets n => exact h.removeSockets n

end World

/-- **No socket is lost, and none has two owners.** In every state of every interleaving of any number
of polls, each socket that was ever made is at one place, once: polled and to be kept, waiting, on
its way in a callback, with the closure of a move, or gone. -/
theorem sockets_kept (capacity : Nat) (fd : Nat → Int) (acts : List Action) :
    Run.Always (act capacity fd) World.SocketsKept .init acts :=
  Run.always_of_inv (fun w (h : AllLoop fd w ∧ w.SocketsKept) => h.2)
    (fun _ a h => ⟨h.1.act a, h.2.act h.1 a⟩) ⟨fun _ => .new, World.socketsKept_init⟩

end Oxool.Net.Polling
