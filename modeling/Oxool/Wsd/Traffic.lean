import Mathlib.Algebra.GroupWithZero.Nat
import Mathlib.Algebra.Order.BigOperators.Group.List
import Mathlib.Algebra.Order.Group.Nat
import Mathlib.Logic.Function.Basic
import Oxool.Lib.Run

/-!
# Traffic (`DocumentBroker::pollThread` and `AdminModel::addBytes`)

From time to time a broker adds up the bytes its sessions have sent and received, and tells the admin
thread how much more these are than the totals it reported last. The bytes of a session go away with
the session, so that the sums may be less than before. The admin thread takes the reports in their
order, and adds them to its totals and to those of the document, if it knows the document at that time.

All of it is `uint64_t`. The guard of the bytes sent compares with the last report, the one of the bytes
received with a delta that is 0: received bytes that are less than reported wrap around.

What a report should say is read off the samples, and not off the counters of the broker: a total that has
been reported is the highest that was sampled, and an increase is what a sample has above it (`highest`,
`State.report`). So a counter that the code forgot to move would be seen, as would a guard that is wrong.
-/

set_option autoImplicit false

namespace Oxool.Wsd.Traffic

/-- Bytes sent and received. -/
structure IOStats where
  sent : UInt64
  recv : UInt64
deriving DecidableEq

/-- The counters of `pollThread`: `adminSent` and `adminRecv`. -/
structure Broker where
  docKey : String
  admin : IOStats
deriving DecidableEq

/-- A call of `addBytes`, and by how much the totals really went up over those reported before. -/
structure Report where
  docKey : String
  delta : IOStats
  increaseSent : Nat
  increaseRecv : Nat
deriving DecidableEq

/-- The bandwidth update: the deltas that are reported, and the counters after it. -/
def Broker.update (b : Broker) (io : IOStats) : IOStats × Broker :=
  let deltaSent : UInt64 := 0
  let deltaRecv : UInt64 := 0
  -- connection drop transiently reduces this.
  let (deltaSent, adminSent) :=
    if io.sent > b.admin.sent then (io.sent - b.admin.sent, io.sent) else (deltaSent, b.admin.sent)
  let (deltaRecv, adminRecv) :=
    if io.recv > deltaRecv then (io.recv - b.admin.recv, io.recv) else (deltaRecv, b.admin.recv)
  (⟨deltaSent, deltaRecv⟩, ⟨b.docKey, ⟨adminSent, adminRecv⟩⟩)

/-- `Document::addBytes`, and the totals of `AdminModel`. -/
def IOStats.add (total delta : IOStats) : IOStats :=
  ⟨total.sent + delta.sent, total.recv + delta.recv⟩

/-- The highest total in some samples. -/
def highest (total : IOStats → UInt64) (samples : List IOStats) : Nat :=
  (samples.map fun io => (total io).toNat).foldl max 0

/-- The brokers, and the admin thread: the documents it knows, its totals, and the callbacks it has not
run yet. What a broker has sampled and the reports that were taken are kept for the record. -/
structure State where
  brokers : Nat → Option Broker
  samples : Nat → List IOStats
  documents : String → Option IOStats
  total : IOStats
  callbacks : List Report
  taken : List Report

namespace State

def init : State := ⟨fun _ => none, fun _ => [], fun _ => none, ⟨0, 0⟩, [], []⟩

/-- `AdminModel::addBytes`. -/
def addBytes (s : State) (docKey : String) (delta : IOStats) : State :=
  { s with
    documents := fun key => if key = docKey then (s.documents key).map (·.add delta) else s.documents key
    total := s.total.add delta }

def reports (s : State) : List Report := s.taken ++ s.callbacks

/-- What a broker reports of a sample, and what the sample has above all that were reported. -/
def report (s : State) (id : Nat) (b : Broker) (io : IOStats) : Report :=
  ⟨b.docKey, (b.update io).1, io.sent.toNat - highest IOStats.sent (s.samples id),
    io.recv.toNat - highest IOStats.recv (s.samples id)⟩

end State

inductive Action
  | newBroker (id : Nat) (docKey : String)
  /-- A broker comes by with the sums over its sessions. -/
  | poll (id : Nat) (io : IOStats)
  | addDocument (docKey : String)
  | removeDocument (docKey : String)
  /-- The admin thread runs the first callback. -/
  | callback
deriving DecidableEq

def step (s : State) : Action → State
  | .newBroker id docKey =>
    { s with
      brokers := Function.update s.brokers id (some ⟨docKey, ⟨0, 0⟩⟩)
      samples := Function.update s.samples id [] }
  | .poll id io =>
    match s.brokers id with
    | none => s
    | some b =>
      { s with
        brokers := Function.update s.brokers id (some (b.update io).2)
        samples := Function.update s.samples id (s.samples id ++ [io])
        callbacks := s.callbacks ++ [s.report id b io] }
  | .addDocument docKey =>
    { s with
      documents := fun key =>
        if key = docKey then some ((s.documents key).getD ⟨0, 0⟩) else s.documents key }
  | .removeDocument docKey =>
    { s with documents := fun key => if key = docKey then none else s.documents key }
  | .callback =>
    match s.callbacks with
    | [] => s
    | r :: rest => { s.addBytes r.docKey r.delta with callbacks := rest, taken := s.taken ++ [r] }

/-! ## What is claimed -/

/-- What is reported is what the totals went up by. -/
def Report.Faithful (r : Report) : Prop :=
  r.delta.sent.toNat = r.increaseSent ∧ r.delta.recv.toNat = r.increaseRecv

/-- Totals are no more than the reports really went up by. -/
def IOStats.Within (io : IOStats) (rs : List Report) : Prop :=
  io.sent.toNat ≤ (rs.map Report.increaseSent).sum ∧ io.recv.toNat ≤ (rs.map Report.increaseRecv).sum

def ofDocument (docKey : String) (rs : List Report) : List Report := rs.filter (·.docKey = docKey)

/-- **Nothing wraps**: every report is the increase, and no total is more than the increases. -/
structure Accounted (s : State) : Prop where
  reports : ∀ r ∈ s.reports, r.Faithful
  documents : ∀ docKey io, s.documents docKey = some io → io.Within (ofDocument docKey s.reports)
  total : s.total.Within s.reports

/-- The bytes received are none, or not less than in any sample before. -/
def NotLess (s : State) : Action → Prop
  | .poll id io => ∀ b, s.brokers id = some b → io.recv = 0 ∨ highest IOStats.recv (s.samples id) ≤ io.recv.toNat
  | _ => True

/-! ## One report -/

theorem highest_concat (total : IOStats → UInt64) (samples : List IOStats) (io : IOStats) :
    highest total (samples ++ [io]) = max (highest total samples) (total io).toNat := by
  rw [highest, List.map_append, List.foldl_append]
  rfl

/-- **The bytes sent are always reported right**, as the counter is the highest total that was sampled, and
so is the counter after the report. -/
theorem update_sent (b : Broker) (io : IOStats) :
    (b.update io).1.sent.toNat = io.sent.toNat - b.admin.sent.toNat ∧
      (b.update io).2.admin.sent.toNat = max b.admin.sent.toNat io.sent.toNat := by
  simp only [Broker.update]
  split
  · rename_i h
    have hlt := UInt64.lt_iff_toNat_lt.mp h
    exact ⟨UInt64.toNat_sub_of_le _ _ (UInt64.le_of_lt h), (Nat.max_eq_right (Nat.le_of_lt hlt)).symm⟩
  · rename_i h
    have hle := UInt64.le_iff_toNat_le.mp (UInt64.not_lt.mp h)
    rw [UInt64.toNat_zero, Nat.sub_eq_zero_of_le hle, Nat.max_eq_left hle]
    exact ⟨rfl, rfl⟩

/-- **The bytes received are reported right** where they are none or not less than the counter, and only
then. -/
theorem update_recv (b : Broker) (io : IOStats) :
    (b.update io).1.recv.toNat = io.recv.toNat - b.admin.recv.toNat ↔
      io.recv = 0 ∨ b.admin.recv.toNat ≤ io.recv.toNat := by
  simp only [Broker.update]
  split
  · rename_i h
    have hpos := UInt64.lt_iff_toNat_lt.mp h
    rw [UInt64.toNat_zero] at hpos
    constructor
    · intro heq
      refine .inr ?_
      by_contra hless
      have hadmin := b.admin.recv.toNat_lt
      rw [UInt64.toNat_sub] at heq
      omega
    · rintro (hzero | hle)
      · rw [hzero, UInt64.toNat_zero] at hpos
        omega
      · exact UInt64.toNat_sub_of_le _ _ (UInt64.le_iff_toNat_le.mpr hle)
  · rename_i h
    have hzero : io.recv = 0 := by
      have hle := UInt64.le_iff_toNat_le.mp (UInt64.not_lt.mp h)
      rw [UInt64.toNat_zero] at hle
      exact UInt64.toNat_inj.mp (by rw [UInt64.toNat_zero]; omega)
    refine iff_of_true ?_ (.inl hzero)
    rw [hzero]
    simp

/-- Where the bytes received are reported right, their counter stays the highest total. -/
theorem update_recv_counter (b : Broker) (io : IOStats)
    (h : io.recv = 0 ∨ b.admin.recv.toNat ≤ io.recv.toNat) :
    (b.update io).2.admin.recv.toNat = max b.admin.recv.toNat io.recv.toNat := by
  simp only [Broker.update]
  split
  · rename_i hpos
    rw [gt_iff_lt, UInt64.lt_iff_toNat_lt, UInt64.toNat_zero] at hpos
    rcases h with hzero | hle
    · rw [hzero, UInt64.toNat_zero] at hpos
      exact absurd hpos (Nat.lt_irrefl 0)
    · exact (Nat.max_eq_right hle).symm
  · rename_i hnot
    rw [gt_iff_lt, UInt64.lt_iff_toNat_lt, UInt64.toNat_zero] at hnot
    rw [Nat.eq_zero_of_not_pos hnot, Nat.max_zero]

/-! ## Totals -/

/-- Totals are no more than the deltas that were added, as numbers. -/
def IOStats.SumOf (io : IOStats) (rs : List Report) : Prop :=
  io.sent.toNat ≤ (rs.map (·.delta.sent.toNat)).sum ∧
    io.recv.toNat ≤ (rs.map (·.delta.recv.toNat)).sum

theorem sumOf_zero (rs : List Report) : IOStats.SumOf ⟨0, 0⟩ rs := ⟨Nat.zero_le _, Nat.zero_le _⟩

/-- An addition that wraps around makes a total less. -/
theorem IOStats.SumOf.add {io : IOStats} {rs : List Report} (h : io.SumOf rs) (r : Report) :
    (io.add r.delta).SumOf (rs ++ [r]) := by
  have hsent := Nat.mod_le (io.sent.toNat + r.delta.sent.toNat) (2 ^ 64)
  have hrecv := Nat.mod_le (io.recv.toNat + r.delta.recv.toNat) (2 ^ 64)
  rw [IOStats.SumOf, List.map_append, List.map_append, List.sum_append, List.sum_append, IOStats.add,
    UInt64.toNat_add, UInt64.toNat_add]
  simp only [List.map_cons, List.map_nil, List.sum_cons, List.sum_nil]
  exact ⟨by have := h.1; omega, by have := h.2; omega⟩

theorem IOStats.SumOf.within {io : IOStats} {rs all : List Report} (h : io.SumOf rs)
    (hsub : rs.Sublist all) (hfaithful : ∀ r ∈ all, r.Faithful) : io.Within all := by
  have hsent : rs.map (·.delta.sent.toNat) = rs.map Report.increaseSent :=
    List.map_congr_left fun r hr => (hfaithful r (hsub.subset hr)).1
  have hrecv : rs.map (·.delta.recv.toNat) = rs.map Report.increaseRecv :=
    List.map_congr_left fun r hr => (hfaithful r (hsub.subset hr)).2
  rw [IOStats.SumOf, hsent, hrecv] at h
  exact ⟨h.1.trans ((hsub.map _).sum_le_sum fun _ _ => Nat.zero_le _),
    h.2.trans ((hsub.map _).sum_le_sum fun _ _ => Nat.zero_le _)⟩

/-- What holds in every run: the totals come from the reports that were taken. -/
structure Added (s : State) : Prop where
  documents : ∀ docKey io, s.documents docKey = some io → io.SumOf (ofDocument docKey s.taken)
  total : s.total.SumOf s.taken

/-- Where the reports are right, so are the totals. -/
theorem Added.accounted_iff {s : State} (h : Added s) :
    Accounted s ↔ ∀ r ∈ s.reports, r.Faithful := by
  constructor
  · exact Accounted.reports
  · intro hfaithful
    have hsub : s.taken.Sublist s.reports := List.sublist_append_left _ _
    refine ⟨hfaithful, fun docKey io hio => ?_, h.total.within hsub hfaithful⟩
    exact (h.documents docKey io hio).within (hsub.filter _)
      fun r hr => hfaithful r (List.mem_of_mem_filter hr)

theorem ofDocument_append (docKey : String) (rs : List Report) (r : Report) :
    ofDocument docKey (rs ++ [r]) =
      if r.docKey = docKey then ofDocument docKey rs ++ [r] else ofDocument docKey rs := by
  rw [ofDocument, List.filter_append]
  split
  · rename_i h
    simp [ofDocument, h]
  · rename_i h
    simp [ofDocument, h]

/-- A report is taken. -/
theorem Added.take {s : State} (h : Added s) {r : Report} {rest : List Report} :
    Added { s.addBytes r.docKey r.delta with callbacks := rest, taken := s.taken ++ [r] } := by
  refine ⟨fun docKey io hio => ?_, h.total.add r⟩
  dsimp only [State.addBytes] at hio ⊢
  rw [ofDocument_append]
  split at hio
  · rename_i hkey
    obtain ⟨old, hold, rfl⟩ := Option.map_eq_some_iff.mp hio
    rw [if_pos hkey.symm]
    exact (h.documents docKey old hold).add r
  · rename_i hkey
    rw [if_neg fun heq => hkey heq.symm]
    exact h.documents docKey io hio

theorem added_step (s : State) (a : Action) (h : Added s) : Added (step s a) := by
  cases a with
  | newBroker id docKey => exact ⟨h.documents, h.total⟩
  | poll id io =>
    rw [step]
    cases s.brokers id with
    | none => exact h
    | some b => exact ⟨h.documents, h.total⟩
  | addDocument docKey =>
    refine ⟨fun key io hio => ?_, h.total⟩
    dsimp only [step] at hio ⊢
    split at hio
    · obtain rfl := Option.some.inj hio
      cases hold : s.documents key with
      | none => exact sumOf_zero _
      | some old => exact h.documents key old hold
    · exact h.documents key io hio
  | removeDocument docKey =>
    refine ⟨fun key io hio => ?_, h.total⟩
    dsimp only [step] at hio ⊢
    split at hio
    · cases hio
    · exact h.documents key io hio
  | callback =>
    rw [step]
    cases s.callbacks with
    | nil => exact h
    | cons r rest => exact h.take

/-! ## Counters -/

/-- The counter of the bytes sent is the highest total that was sampled. That of the bytes received is so as
long as every report was right. -/
structure Counted (s : State) : Prop extends Added s where
  sent : ∀ id b, s.brokers id = some b → b.admin.sent.toNat = highest IOStats.sent (s.samples id)
  recv : (∀ r ∈ s.reports, r.Faithful) →
    ∀ id b, s.brokers id = some b → b.admin.recv.toNat = highest IOStats.recv (s.samples id)

/-- A report is right exactly where the bytes received are none or not less than before. -/
theorem Counted.faithful_iff {s : State} (h : Counted s) (hs : ∀ r ∈ s.reports, r.Faithful) {id : Nat}
    {b : Broker} (hb : s.brokers id = some b) (io : IOStats) :
    (s.report id b io).Faithful ↔ io.recv = 0 ∨ highest IOStats.recv (s.samples id) ≤ io.recv.toNat := by
  rw [← h.recv hs id b hb, ← update_recv]
  simp only [Report.Faithful, State.report, ← h.sent id b hb, ← h.recv hs id b hb]
  exact and_iff_right (update_sent b io).1

theorem State.reports_poll {s : State} {id : Nat} {b : Broker} (hb : s.brokers id = some b) (io : IOStats) :
    (step s (.poll id io)).reports = s.reports ++ [s.report id b io] := by
  rw [step, hb]
  exact (List.append_assoc _ _ _).symm

/-- The reports are as they were, or a broker has made one more. -/
theorem reports_step (s : State) (a : Action) :
    (step s a).reports = s.reports ∧ NotLess s a ∨
      ∃ id io b, a = .poll id io ∧ s.brokers id = some b := by
  cases a with
  | newBroker id docKey => exact .inl ⟨rfl, trivial⟩
  | poll id io =>
    cases hb : s.brokers id with
    | none =>
      refine .inl ⟨by rw [step, hb], fun b hsome => ?_⟩
      rw [hb] at hsome
      cases hsome
    | some b => exact .inr ⟨id, io, b, rfl, hb⟩
  | addDocument docKey => exact .inl ⟨rfl, trivial⟩
  | removeDocument docKey => exact .inl ⟨rfl, trivial⟩
  | callback =>
    refine .inl ⟨?_, trivial⟩
    rw [step]
    cases hc : s.callbacks with
    | nil => rfl
    | cons r rest => simp [State.reports, hc]

/-- A broker that has begun has reported nothing. -/
theorem Counted.newBroker {s : State} (h : Counted s) (id : Nat) (docKey : String) :
    Counted (step s (.newBroker id docKey)) where
  toAdded := added_step s _ h.toAdded
  sent i b hb := by
    dsimp only [step] at hb ⊢
    by_cases hi : i = id
    · subst hi
      rw [Function.update_self] at hb ⊢
      obtain rfl := Option.some.inj hb
      rfl
    · rw [Function.update_of_ne hi] at hb ⊢
      exact h.sent i b hb
  recv hfaithful i b hb := by
    dsimp only [step] at hb ⊢
    by_cases hi : i = id
    · subst hi
      rw [Function.update_self] at hb ⊢
      obtain rfl := Option.some.inj hb
      rfl
    · rw [Function.update_of_ne hi] at hb ⊢
      exact h.recv hfaithful i b hb

theorem Counted.poll {s : State} (h : Counted s) {id : Nat} {b : Broker} (hb : s.brokers id = some b)
    (io : IOStats) : Counted (step s (.poll id io)) where
  toAdded := added_step s _ h.toAdded
  sent i b' hb' := by
    rw [step, hb] at hb' ⊢
    dsimp only at hb' ⊢
    by_cases hi : i = id
    · subst hi
      rw [Function.update_self] at hb' ⊢
      obtain rfl := Option.some.inj hb'
      rw [highest_concat, ← h.sent i b hb]
      exact (update_sent b io).2
    · rw [Function.update_of_ne hi] at hb' ⊢
      exact h.sent i b' hb'
  recv hfaithful i b' hb' := by
    rw [State.reports_poll hb, List.forall_mem_append, List.forall_mem_singleton] at hfaithful
    rw [step, hb] at hb' ⊢
    dsimp only at hb' ⊢
    by_cases hi : i = id
    · subst hi
      rw [Function.update_self] at hb' ⊢
      obtain rfl := Option.some.inj hb'
      have hcounter := h.recv hfaithful.1 i b hb
      have hnotLess := (h.faithful_iff hfaithful.1 hb io).mp hfaithful.2
      rw [highest_concat, ← hcounter]
      rw [← hcounter] at hnotLess
      exact update_recv_counter b io hnotLess
    · rw [Function.update_of_ne hi] at hb' ⊢
      exact h.recv hfaithful.1 i b' hb'

theorem counted_step (s : State) (a : Action) (h : Counted s) : Counted (step s a) := by
  cases a with
  | newBroker id docKey => exact h.newBroker id docKey
  | poll id io =>
    cases hb : s.brokers id with
    | none =>
      rw [step, hb]
      exact h
    | some b => exact h.poll hb io
  | addDocument docKey => exact ⟨added_step s _ h.toAdded, h.sent, h.recv⟩
  | removeDocument docKey => exact ⟨added_step s _ h.toAdded, h.sent, h.recv⟩
  | callback =>
    have hreports : (step s .callback).reports = s.reports := by
      rcases reports_step s .callback with ⟨hsame, -⟩ | ⟨id, io, b, hpoll, -⟩
      · exact hsame
      · cases hpoll
    have hbrokers : (step s .callback).brokers = s.brokers ∧ (step s .callback).samples = s.samples := by
      rw [step]
      cases s.callbacks with
      | nil => exact ⟨rfl, rfl⟩
      | cons r rest => exact ⟨rfl, rfl⟩
    refine ⟨added_step s _ h.toAdded, ?_, ?_⟩
    · rw [hbrokers.1, hbrokers.2]
      exact h.sent
    · rw [hreports, hbrokers.1, hbrokers.2]
      exact h.recv

/-! ## Runs -/

/-- **A step keeps the accounts right exactly where the bytes received are not less.** -/
theorem accounted_step (s : State) (a : Action) (h : Counted s) (hs : Accounted s) :
    Accounted (step s a) ↔ NotLess s a := by
  rw [(added_step s a h.toAdded).accounted_iff]
  rcases reports_step s a with ⟨hsame, hok⟩ | ⟨id, io, b, rfl, hb⟩
  · rw [hsame]
    exact iff_of_true hs.reports hok
  · rw [State.reports_poll hb, List.forall_mem_append, List.forall_mem_singleton,
      h.faithful_iff hs.reports hb io, and_iff_right hs.reports]
    constructor
    · exact fun hnotLess _ _ => hnotLess
    · exact fun hnotLess => hnotLess b hb

/-- **Nothing wraps in the runs in which no sample of received bytes is less than one before**, zero apart,
and in no others. -/
theorem traffic_accounting (actions : List Action) :
    Run.Always step Accounted State.init actions ↔ Run.Meets step NotLess State.init actions := by
  have hadded : Added State.init := ⟨fun _ _ hio => (nomatch hio), sumOf_zero _⟩
  have hcounted : Counted State.init := ⟨hadded, fun _ _ hb => (nomatch hb), fun _ _ _ hb => (nomatch hb)⟩
  refine Run.always_iff_meets counted_step accounted_step hcounted (hadded.accounted_iff.mpr ?_)
  intro r hr
  cases hr

/-- A session that has received 50 bytes goes away. The document has come back to the admin in between,
and has received 2 ^ 64 - 50 bytes then. -/
theorem not_traffic_accounting :
    ¬ ∀ actions : List Action, Run.Always step Accounted State.init actions := by
  intro hall
  have hlast := Run.Always.last (hall [.newBroker 0 "doc", .addDocument "doc", .poll 0 ⟨0, 100⟩, .callback,
    .removeDocument "doc", .addDocument "doc", .poll 0 ⟨0, 50⟩, .callback])
  have hwrapped := (hlast.documents "doc" ⟨0, 18446744073709551566⟩ (by decide)).2
  exact absurd hwrapped (by decide)

end Oxool.Wsd.Traffic
