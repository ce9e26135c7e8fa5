import Oxool.Net.Http.Transfer

/-!
# One read

The body stage of `readData` next to the transfer. A read keeps the two in step, ends both in the
same way, or goes wrong for good: the reader does not reject a size line. One that starts with no
hex digit counts as the last chunk, one that goes on after its digits counts as its digits. And a
body with an announced length is handed over with whatever came behind it.
-/

set_option autoImplicit false

namespace Oxool.Http

/-- Whether a body goes to memory, or to a file that takes it. -/
def accepts (good : Bytes → Bytes → Bool) (toFile : Bool) (file data : Bytes) : Bool := !toFile || good file data

/-- The header announces this framing of a body. -/
def Framed (h : Header) : Announced → Prop
  | .chunked => h.chunked = true
  | .length n => h.chunked = false ∧ h.hasContentLength = true ∧ h.getContentLength = some n
  | .untilClose => h.chunked = false ∧ h.hasContentLength = false
  | .none | .contradictory => False

/-- A reader in step with a transfer under way. -/
structure Reading (toFile : Bool) (a : Announced) (r : Response) (t : Transfer) : Prop where
  stage : r.parserStage = .body
  framed : Framed r.header a
  given : r.given = t.data
  sink : r.toFile = toFile
  file : toFile = true → r.bodyFile = t.data
  size : r.recvBodySize = t.data.length
  receiving : t.status = .receiving
  regular : t.regular = true

/-- Data at whose front the reader waits although there is a size line it should reject. -/
def Stuck (q : Bytes) : Prop :=
  q.takeWhile (· != lf) ≠ q ∧ ∃ n, 0 < n ∧ Response.chunkLength 0 q = some n

/-- What a read can come to, next to the transfer. The last three cases are those of a stream that
is not regular, and none of them mends. -/
inductive Outcome (toFile : Bool) (a : Announced) : Response × Option Bytes → Transfer → Prop
  | receiving {r : Response} {t : Transfer} :
    Reading toFile a r t → Outcome toFile a (r, some t.pending) t
  | complete {r : Response} {t : Transfer} :
    r.parserStage = .finished → r.given = t.data → t.status = .complete → t.regular = true →
    Outcome toFile a (r, some []) t
  | failed {r : Response} {t : Transfer} :
    r.given = t.data → t.status = .failed → t.regular = true → Outcome toFile a (r, none) t
  | stuck {r : Response} {t : Transfer} (q : Bytes) :
    r.parserStage = .body → r.header.chunked = true → r.given = t.data → t.status = .failed →
    t.regular = false → Stuck q → Outcome toFile a (r, some q) t
  | accepted {r : Response} {t : Transfer} (rest : Bytes) :
    r.parserStage = .finished → t.status = .failed → t.regular = false →
    Outcome toFile a (r, some rest) t
  | surplus {r : Response} {t : Transfer} (rest : Option Bytes) :
    t.data.length < r.given.length → t.status ≠ .receiving → t.regular = false →
    Outcome toFile a (r, rest) t

/-- The body stage leaves everything else as it is, and never takes back what it handed over. -/
structure Response.Extends (r r' : Response) : Prop where
  state : r'.state = r.state
  finished : r'.finished = r.finished
  statusLine : r'.statusLine = r.statusLine
  header : r'.header = r.header
  given : r.given <+: r'.given
  memory : r.toFile = false ∧ r.body = r.given → r'.toFile = false ∧ r'.body = r'.given

theorem Response.Extends.refl (r : Response) : Response.Extends r r :=
  ⟨rfl, rfl, rfl, rfl, List.prefix_refl _, fun h => h⟩

theorem Response.Extends.trans {r r' r'' : Response} (h : Response.Extends r r')
    (h' : Response.Extends r' r'') : Response.Extends r r'' :=
  ⟨h'.state.trans h.state, h'.finished.trans h.finished, h'.statusLine.trans h.statusLine,
    h'.header.trans h.header, h.given.trans h'.given, fun hm => h'.memory (h.memory hm)⟩

section Simulation

variable {good : Bytes → Bytes → Bool} {toFile : Bool}

theorem onBodyWrite_extends (good : Bytes → Bytes → Bool) (r : Response) (data : Bytes) :
    Response.Extends r (r.onBodyWrite good data).1 ∧
      (r.onBodyWrite good data).1.given = r.given ++ data := by
  unfold Response.onBodyWrite
  dsimp only
  split
  · rename_i hfile
    have hmem : r.toFile ≠ false := by rw [hfile]; decide
    split <;> exact ⟨⟨rfl, rfl, rfl, rfl, ⟨data, rfl⟩, fun h => absurd h.1 hmem⟩, rfl⟩
  · refine ⟨⟨rfl, rfl, rfl, rfl, ⟨data, rfl⟩, fun h => ⟨h.1, ?_⟩⟩, rfl⟩
    dsimp only
    rw [h.2]

/-- Handing a piece of the body over keeps the reader in step, or fails where the transfer fails. -/
theorem onBodyWrite_reading (good : Bytes → Bytes → Bool) {a : Announced} {r : Response} {t : Transfer}
    (h : Reading toFile a r t) (data : Bytes) :
    ∃ r', r.onBodyWrite good data = (r', accepts good toFile t.data data) ∧
      r'.given = t.data ++ data ∧
      (accepts good toFile t.data data = true →
        Reading toFile a { r' with recvBodySize := r'.recvBodySize + data.length }
          (t.deliver (accepts good toFile) data)) := by
  have hgiven := h.given
  have hsize := h.size
  cases toFile with
  | false =>
    refine ⟨{ r with given := r.given ++ data, body := r.body ++ data }, ?_, by rw [← hgiven],
      fun hacc => ⟨h.stage, h.framed, by rw [Transfer.deliver, ← hgiven], h.sink,
        fun h => absurd h (by decide), ?_, ?_, h.regular⟩⟩
    · simp [Response.onBodyWrite, h.sink, accepts]
    · simp [Transfer.deliver, hsize]
    · rw [Transfer.deliver, if_pos hacc, h.receiving]
  | true =>
    have hfile := h.file rfl
    by_cases hg : good t.data data = true
    · refine ⟨{ r with given := r.given ++ data, bodyFile := r.bodyFile ++ data }, ?_,
        by rw [← hgiven], fun hacc => ⟨h.stage, h.framed, by rw [Transfer.deliver, ← hgiven],
          h.sink, fun _ => by rw [Transfer.deliver, ← hfile], ?_, ?_, h.regular⟩⟩
      · simp [Response.onBodyWrite, h.sink, accepts, hfile, hg]
      · simp [Transfer.deliver, hsize]
      · rw [Transfer.deliver, if_pos hacc, h.receiving]
    · refine ⟨{ r with given := r.given ++ data }, ?_, by rw [← hgiven],
        fun hacc => absurd hacc (by simp [accepts, hg])⟩
      simp [Response.onBodyWrite, h.sink, accepts, hfile, hg]

/-- One round of the chunk loop, by the line at the front of the data. -/
theorem readChunks_succ (fuel : Nat) (r : Response) (p : Bytes) :
    r.readChunks good (fuel + 1) p =
      if p.takeWhile (· != lf) = p then (r, some p)
      else
        match Response.chunkLength 0 p with
        | none => (r, none)
        | some 0 => ({ r with parserStage := .finished }, some [])
        | some (n + 1) =>
          let q := p.drop ((p.takeWhile (· != lf)).length + 1)
          if q.length < n + 1 + 2 then (r, some p)
          else
            match r.onBodyWrite good (q.take (n + 1)) with
            | (r', false) => (r', none)
            | (r', true) => Response.readChunks good fuel
                { r' with recvBodySize := r'.recvBodySize + (n + 1) } (skipCRLF (q.drop (n + 1))) := by
  have hbreak : findLineBreak p 0 = (p.takeWhile (· != lf)).length := by
    rw [findLineBreak, Nat.zero_add, List.drop_zero]
  have hwhole : (p.takeWhile (· != lf)).length = p.length ↔ p.takeWhile (· != lf) = p :=
    ⟨fun h => (List.takeWhile_prefix _).eq_of_length h, fun h => by rw [h]⟩
  rw [Response.readChunks]
  simp only [hbreak, hwhole]
  by_cases hline : p.takeWhile (· != lf) = p
  · simp [hline]
  · have hne : p.length ≠ 0 := fun h => hline (by rw [List.length_eq_zero_iff.mp h]; rfl)
    rw [if_neg hne, if_neg hline, if_neg hline]
    cases hlen : Response.chunkLength 0 p with
    | none => rfl
    | some n =>
      cases n with
      | zero => rfl
      | succ n =>
        refine (if_pos (Nat.succ_pos n)).trans (if_congr ?_ rfl rfl)
        rw [List.length_drop]

theorem readChunks_extends (good : Bytes → Bytes → Bool) (fuel : Nat) : ∀ (r : Response) (p : Bytes),
    Response.Extends r (r.readChunks good fuel p).1 := by
  induction fuel with
  | zero => exact fun r p => .refl r
  | succ fuel ih =>
    intro r p
    rw [readChunks_succ]
    split
    · exact .refl r
    split
    · exact .refl r
    · exact ⟨rfl, rfl, rfl, rfl, List.prefix_refl _, fun h => h⟩
    rename_i n _
    dsimp only
    split
    · exact .refl r
    have hext := (onBodyWrite_extends good r
      ((p.drop ((p.takeWhile (· != lf)).length + 1)).take (n + 1))).1
    split
    · rename_i r' heq
      rw [heq] at hext
      exact hext
    · rename_i r' heq
      rw [heq] at hext
      have hcounted : Response.Extends r { r' with recvBodySize := r'.recvBodySize + (n + 1) } :=
        ⟨hext.state, hext.finished, hext.statusLine, hext.header, hext.given, hext.memory⟩
      exact hcounted.trans (ih _ _)

theorem readChunks_suffix (fuel : Nat) : ∀ (r : Response) (p : Bytes) {rest : Bytes},
    (r.readChunks good fuel p).2 = some rest → rest <:+ p := by
  induction fuel with
  | zero =>
    intro r p rest h
    exact Option.some.inj h ▸ List.suffix_refl _
  | succ fuel ih =>
    intro r p rest h
    rw [readChunks_succ] at h
    split at h
    · exact Option.some.inj h ▸ List.suffix_refl _
    · split at h
      · exact absurd h (by simp)
      · exact Option.some.inj h ▸ List.nil_suffix
      · dsimp only at h
        split at h
        · exact Option.some.inj h ▸ List.suffix_refl _
        · split at h
          · exact absurd h (by simp)
          · exact (ih _ _ h).trans ((List.dropWhile_suffix _).trans
              ((List.drop_suffix _ _).trans (List.drop_suffix _ _)))

/-- A reader that waits where it should reject goes on waiting, or hands over bytes that are not
the body's. -/
theorem readChunks_stuck (fuel : Nat) {a : Announced} {r : Response} {t : Transfer} {p : Bytes}
    (hstage : r.parserStage = .body) (hchunked : r.header.chunked = true) (hgiven : r.given = t.data)
    (hstatus : t.status = .failed) (hregular : t.regular = false) (hstuck : Stuck p) :
    Outcome toFile a (r.readChunks good (fuel + 1) p) t := by
  obtain ⟨hline, n, hpos, hn⟩ := hstuck
  obtain ⟨n, rfl⟩ : ∃ m, n = m + 1 := ⟨n - 1, by omega⟩
  have hended : t.status ≠ .receiving := by rw [hstatus]; decide
  rw [readChunks_succ, if_neg hline, hn]
  generalize p.drop ((p.takeWhile (· != lf)).length + 1) = q
  dsimp only
  split
  · exact .stuck p hstage hchunked hgiven hstatus hregular ⟨hline, n + 1, hpos, hn⟩
  obtain ⟨-, hg⟩ := onBodyWrite_extends good r (q.take (n + 1))
  -- Whatever the rest of the loop does, the chunk was handed over.
  have hlonger : ∀ r' : Response, r'.given = r.given ++ q.take (n + 1) →
      t.data.length < r'.given.length := by
    intro r' hr'
    rw [hr', hgiven, List.length_append, List.length_take]
    omega
  split
  · rename_i r' heq
    rw [heq] at hg
    exact .surplus _ (hlonger r' hg) hended hregular
  · rename_i r' heq
    rw [heq] at hg
    have hmore := (readChunks_extends good fuel { r' with
      recvBodySize := r'.recvBodySize + (n + 1) } (skipCRLF (q.drop (n + 1)))).given.length_le
    exact .surplus _ (Nat.lt_of_lt_of_le (hlonger r' hg) hmore) hended hregular

/-- **The chunk loop follows the transfer.** -/
theorem readChunks_outcome (fuel : Nat) : ∀ {r : Response} {t : Transfer} (p : Bytes),
    Reading toFile .chunked r t →
    Outcome toFile .chunked (r.readChunks good fuel p)
      (t.chunks (accepts good toFile) fuel p) := by
  induction fuel with
  | zero =>
    intro r t p h
    exact Outcome.receiving (t := { t with pending := p })
      ⟨h.stage, h.framed, h.given, h.sink, h.file, h.size, h.receiving, h.regular⟩
  | succ fuel ih =>
    intro r t p h
    have hwait : Outcome toFile .chunked (r, some p) { t with pending := p } :=
      Outcome.receiving (t := { t with pending := p })
        ⟨h.stage, h.framed, h.given, h.sink, h.file, h.size, h.receiving, h.regular⟩
    rw [readChunks_succ]
    by_cases hline : p.takeWhile (· != lf) = p
    · rw [if_pos hline, chunks_wait _ fuel t hline]
      exact hwait
    rw [if_neg hline]
    have hcases := sizeLine_cases p
    generalize hq : p.drop ((p.takeWhile (· != lf)).length + 1) = q
    cases hsize : sizeLine (p.takeWhile (· != lf)) with
    | tooLarge =>
      rw [hsize] at hcases
      rw [hcases, Transfer.chunks]
      dsimp only
      rw [if_neg hline, hsize]
      exact .failed h.given rfl h.regular
    | invalid =>
      rw [hsize] at hcases
      obtain ⟨n, hn⟩ := hcases
      rw [Transfer.chunks]
      dsimp only
      rw [if_neg hline, hsize]
      cases n with
      | zero =>
        rw [hn]
        exact .accepted [] rfl rfl rfl
      | succ n =>
        have hstuck : Outcome toFile .chunked (r.readChunks good (fuel + 1) p)
            { t with status := .failed, regular := false } :=
          readChunks_stuck fuel h.stage h.framed h.given rfl rfl ⟨hline, n + 1, Nat.succ_pos n, hn⟩
        rw [readChunks_succ, if_neg hline, hq] at hstuck
        exact hstuck
    | size n =>
      rw [hsize] at hcases
      rw [hcases]
      cases n with
      | zero =>
        rw [chunks_zero _ fuel t hline hsize]
        exact .complete rfl h.given rfl h.regular
      | succ n =>
        rw [chunks_size _ fuel t hline hsize, hq]
        dsimp only
        split
        · exact hwait
        · obtain ⟨r', heq, hgiven, hreading⟩ := onBodyWrite_reading good h (q.take (n + 1))
          have hlen : (q.take (n + 1)).length = n + 1 := by
            rw [List.length_take]
            omega
          rw [heq]
          cases hacc : accepts good toFile t.data (q.take (n + 1)) with
          | false =>
            have hfailed : (t.deliver (accepts good toFile) (q.take (n + 1))).status = .failed := by
              rw [Transfer.deliver, hacc]
              rfl
            rw [if_pos hfailed]
            exact .failed hgiven hfailed h.regular
          | true =>
            have hnext := hreading hacc
            rw [hlen] at hnext
            rw [if_neg (by rw [hnext.receiving]; decide)]
            exact ih _ hnext

/-- A body with no chunks is handed over as it comes. -/
theorem bodyStage_plain {r : Response} {p : Bytes} (hstage : r.parserStage = .body) (hp : p ≠ [])
    (hchunked : r.header.chunked = false) :
    r.bodyStage good p =
      match r.onBodyWrite good p with
      | (r', false) => (r', none)
      | (r', true) =>
        let r' := { r' with recvBodySize := r'.recvBodySize + p.length }
        if r'.header.hasContentLength ∧ r'.header.getContentLength.getD 0 ≤ r'.recvBodySize then
          ({ r' with parserStage := .finished }, some [])
        else (r', some []) := by
  have hlen : p.length ≠ 0 := fun h => hp (List.length_eq_zero_iff.mp h)
  rw [Response.bodyStage, if_pos ⟨hstage, hlen⟩, hchunked]
  rfl

theorem bodyStage_untilClose {r : Response} {t : Transfer} (h : Reading toFile .untilClose r t)
    (hpending : t.pending = []) {p : Bytes} (hp : p ≠ []) :
    Outcome toFile .untilClose (r.bodyStage good p) (t.deliver (accepts good toFile) p) := by
  obtain ⟨hchunked, hlength⟩ := h.framed
  obtain ⟨r', heq, hgiven, hreading⟩ := onBodyWrite_reading good h p
  rw [bodyStage_plain h.stage hp hchunked, heq]
  cases hacc : accepts good toFile t.data p with
  | false => exact .failed hgiven (by rw [Transfer.deliver, hacc]; rfl) h.regular
  | true =>
    have hnext := hreading hacc
    have hno : r'.header.hasContentLength = false := hnext.framed.2
    dsimp only
    rw [hno, if_neg (by simp)]
    have houtcome := Outcome.receiving hnext
    rw [show (t.deliver (accepts good toFile) p).pending = [] from hpending] at houtcome
    exact houtcome

/-- A read with bytes beyond the announced length gives them to the callback too. -/
theorem bodyStage_surplus {n : Nat} {r : Response} {t : Transfer} (h : Reading toFile (.length n) r t)
    {p : Bytes} (hp : p ≠ []) (hlong : n - t.data.length < p.length) :
    Outcome toFile (.length n) (r.bodyStage good p) (t.upTo (accepts good toFile) n p) := by
  obtain ⟨r', heq, hgiven, -⟩ := onBodyWrite_reading good h p
  have hall : (r.bodyStage good p).1.given = t.data ++ p := by
    rw [bodyStage_plain h.stage hp h.framed.1, heq]
    cases accepts good toFile t.data p with
    | false => exact hgiven
    | true =>
      dsimp only
      split <;> exact hgiven
  have hdata : (t.upTo (accepts good toFile) n p).data = t.data ++ p.take (n - t.data.length) := by
    rw [Transfer.upTo, if_neg hp]
    dsimp only
    split
    · rfl
    · split <;> rfl
  have hstatus : (t.upTo (accepts good toFile) n p).status ≠ .receiving := by
    rw [Transfer.upTo, if_neg hp]
    dsimp only
    split
    · rename_i hfailed
      rw [hfailed]
      decide
    · have hfull : n ≤ (t.data ++ p.take (n - t.data.length)).length := by
        rw [List.length_append, List.length_take]
        omega
      rw [Transfer.deliver, if_pos hfull]
      exact Status.noConfusion
  have hregular : (t.upTo (accepts good toFile) n p).regular = false := by
    have hnot : decide (p.length ≤ n - t.data.length) = false := decide_eq_false (by omega)
    rw [Transfer.upTo, if_neg hp]
    dsimp only
    split
    · simp [Transfer.deliver, hnot]
    · split <;> simp [Transfer.deliver, hnot]
  have hlonger : (t.upTo (accepts good toFile) n p).data.length <
      (r.bodyStage good p).1.given.length := by
    rw [hall, hdata, List.length_append, List.length_append, List.length_take]
    omega
  exact Outcome.surplus (r := (r.bodyStage good p).1) _ hlonger hstatus hregular

theorem bodyStage_length {n : Nat} {r : Response} {t : Transfer} (h : Reading toFile (.length n) r t)
    (hpending : t.pending = []) {p : Bytes} (hp : p ≠ []) :
    Outcome toFile (.length n) (r.bodyStage good p) (t.upTo (accepts good toFile) n p) := by
  by_cases hlong : n - t.data.length < p.length
  · exact bodyStage_surplus h hp hlong
  obtain ⟨hchunked, -⟩ := h.framed
  obtain ⟨r', heq, hgiven, hreading⟩ := onBodyWrite_reading good h p
  have hregular : { t with
      regular := t.regular && decide (p.length ≤ n - t.data.length) } = t := by
    rw [h.regular, decide_eq_true (by omega), Bool.and_self, ← h.regular]
  have hstep : t.upTo (accepts good toFile) n p =
      if (t.deliver (accepts good toFile) p).status = .failed then t.deliver (accepts good toFile) p
      else if n ≤ (t.data ++ p).length then
        { t.deliver (accepts good toFile) p with status := .complete }
      else t.deliver (accepts good toFile) p := by
    rw [Transfer.upTo, if_neg hp]
    dsimp only
    rw [hregular, List.take_of_length_le (by omega)]
    rfl
  rw [bodyStage_plain h.stage hp hchunked, heq, hstep]
  cases hacc : accepts good toFile t.data p with
  | false =>
    have hfailed : (t.deliver (accepts good toFile) p).status = .failed := by
      rw [Transfer.deliver, hacc]
      rfl
    rw [if_pos hfailed]
    exact .failed hgiven hfailed h.regular
  | true =>
    have hnext := hreading hacc
    obtain ⟨-, hhas, hget⟩ := hnext.framed
    have hsize : r'.recvBodySize + p.length = (t.data ++ p).length := hnext.size
    have hnot : (t.deliver (accepts good toFile) p).status ≠ .failed := by
      rw [hnext.receiving]
      decide
    dsimp only at hhas hget ⊢
    rw [if_neg hnot, hhas, hget, hsize]
    by_cases hfull : n ≤ (t.data ++ p).length
    · rw [if_pos ⟨rfl, hfull⟩, if_pos hfull]
      exact .complete rfl hgiven rfl h.regular
    · rw [if_neg fun h => hfull h.2, if_neg hfull]
      have houtcome := Outcome.receiving hnext
      rw [show (t.deliver (accepts good toFile) p).pending = [] from hpending, hsize] at houtcome
      exact houtcome

theorem body_nil (accepts : Bytes → Bytes → Bool) {a : Announced} {h : Header} (hframed : Framed h a)
    {t : Transfer} (hpending : t.pending = []) : t.body accepts a [] = t := by
  obtain ⟨pending, data, status, regular⟩ := t
  rw [show pending = [] from hpending]
  cases a with
  | none => exact hframed.elim
  | contradictory => exact hframed.elim
  | chunked => rfl
  | length n => rfl
  | untilClose => rfl

/-- **A read follows the transfer**, whatever the framing. -/
theorem bodyStage_outcome {a : Announced} {r : Response} {t : Transfer} (h : Reading toFile a r t)
    (hpending : t.pending = []) (p : Bytes) :
    Outcome toFile a (r.bodyStage good p) (t.body (accepts good toFile) a p) := by
  by_cases hp : p = []
  · have hnone : r.bodyStage good p = (r, some t.pending) := by
      rw [hp, hpending, Response.bodyStage, if_neg fun h => h.2 rfl]
    rw [hnone, hp, body_nil _ h.framed hpending]
    exact .receiving h
  · have hlen : p.length ≠ 0 := fun h => hp (List.length_eq_zero_iff.mp h)
    cases a with
    | none => exact h.framed.elim
    | contradictory => exact h.framed.elim
    | chunked =>
      have hchunked : r.header.chunked = true := h.framed
      rw [Response.bodyStage, if_pos ⟨h.stage, hlen⟩, if_pos hchunked]
      exact readChunks_outcome _ p h
    | length n => exact bodyStage_length h hpending hp
    | untilClose =>
      rw [Transfer.body, if_neg hp]
      exact bodyStage_untilClose h hpending hp

end Simulation

end Oxool.Http
