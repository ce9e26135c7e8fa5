import Oxool.Net.Http.Body

/-!
# Downloads

A whole download, from the end of the header on: `download` is the session after some reads and
`transfer` what it should have come to. `Follows` relates the two and every read keeps it, so that
the session reports what there was to report exactly when the transfer stayed `regular`
(`downloadContract_iff`).
-/

set_option autoImplicit false

namespace Oxool.Http

/-! ## The reader -/

/-- A response whose status line and header were read, with `header` made of `fields`. -/
def Response.headed (toFile : Bool) (statusLine : StatusLine) (fields : List (Bytes × Bytes)) :
    Response :=
  { Response.forParsing toFile with
    statusLine := statusLine
    header := Header.empty.setAll fields
    state := .incomplete
    parserStage := .header }

/-- What `handleIncomingMessage` makes of what `readData` left of the buffer. -/
def Session.ofRead (inBuffer : Bytes) : Response × Option Bytes → Session
  | (r, some rest) => { inBuffer := rest, response := r, connected := true }
  | (r, none) => { inBuffer := inBuffer, response := r.finish .error, connected := false }

/-- The rest of the call that found the end of the header: `head` is the bytes up to there, and
`first` those after it. -/
def Session.afterHeader (good : Bytes → Bytes → Bool) (r : Response) (head first : Bytes) : Session :=
  match r.headerRead with
  | (r, false) => Session.ofRead (head ++ first) (r, none)
  | (r, true) => Session.ofRead (head ++ first) (r.readBody good first)

section Reader

variable (readFields : Bytes → PocoRead) (good : Bytes → Bytes → Bool) (toFile : Bool)

/-- A download from the end of the header on. -/
def download (statusLine : StatusLine) (fields : List (Bytes × Bytes)) (head first : Bytes)
    (reads : List Bytes) : Session :=
  (Session.afterHeader good (Response.headed toFile statusLine fields) head first).receive
    readFields good reads

/-- The transfer of a download. -/
def transfer (statusLine : StatusLine) (fields : List (Bytes × Bytes)) (first : Bytes)
    (reads : List Bytes) : Transfer :=
  Transfer.run (accepts good toFile) (announced statusLine.statusCode (Header.empty.setAll fields))
    first reads

/-- The reader reports of a download what there was to report: the body callback was given the
body, the response is complete when the transfer is, and the connection is given up when the
transfer failed. -/
structure DownloadContract (statusLine : StatusLine) (fields : List (Bytes × Bytes))
    (head first : Bytes) (reads : List Bytes) : Prop where
  given : (download readFields good toFile statusLine fields head first reads).response.given =
    (transfer good toFile statusLine fields first reads).data
  complete : (download readFields good toFile statusLine fields head first reads).response.state =
      .complete ↔ (transfer good toFile statusLine fields first reads).status = .complete
  error : (download readFields good toFile statusLine fields head first reads).connected = false ↔
    (transfer good toFile statusLine fields first reads).status = .failed

end Reader

section Simulation

variable {good : Bytes → Bytes → Bool} {toFile : Bool}

/-! ## What a call does -/

theorem bodyStage_suffix (r : Response) (p : Bytes) {rest : Bytes}
    (h : (r.bodyStage good p).2 = some rest) : rest <:+ p := by
  rw [Response.bodyStage] at h
  split at h
  · split at h
    · exact readChunks_suffix _ r p h
    · split at h
      · exact absurd h (by simp)
      · dsimp only at h
        split at h <;> exact Option.some.inj h ▸ List.nil_suffix
  · exact Option.some.inj h ▸ List.suffix_refl _

theorem bodyStage_extends (good : Bytes → Bytes → Bool) (r : Response) (p : Bytes) :
    Response.Extends r (r.bodyStage good p).1 := by
  rw [Response.bodyStage]
  split
  · split
    · exact readChunks_extends good _ r p
    · obtain ⟨hext, -⟩ := onBodyWrite_extends good r p
      split
      · rename_i r' heq
        rw [heq] at hext
        exact hext
      · rename_i r' heq
        rw [heq] at hext
        dsimp only
        split <;> exact ⟨hext.state, hext.finished, hext.statusLine, hext.header, hext.given, hext.memory⟩
  · exact .refl r

theorem finish_given (r : Response) (state : State) : (r.finish state).given = r.given := by
  unfold Response.finish
  split <;> rfl

theorem readBody_given (good : Bytes → Bytes → Bool) (r : Response) (p : Bytes) :
    r.given <+: (r.readBody good p).1.given := by
  have h := (bodyStage_extends good r p).given
  unfold Response.readBody
  split
  · rename_i r' heq
    rw [heq] at h
    exact h
  · rename_i r' rest heq
    rw [heq] at h
    dsimp only
    split
    · rw [Response.complete, finish_given]
      exact h
    · exact h

theorem headerRead_given {r r' : Response} {ok : Bool} (h : r.headerRead = (r', ok)) :
    r'.given = r.given := by
  -- In every branch the result differs from `r` in the stage and in `toFile` only.
  simp only [Response.headerRead] at h
  repeat' split at h
  all_goals cases h
  all_goals rfl

/-- Nothing that arrives takes back what the callback was given. -/
theorem handleIncomingMessage_given (readFields : Bytes → PocoRead) (good : Bytes → Bytes → Bool)
    (s : Session) (data : Bytes) :
    s.response.given <+: (s.handleIncomingMessage readFields good data).response.given := by
  have hread : ∀ p, s.response.given <+: (s.response.readData readFields good p).1.given := by
    intro p
    unfold Response.readData
    dsimp only
    have hline : ({ s.response with state := .incomplete }.readStatusLine p).1.given =
        s.response.given := by
      unfold Response.readStatusLine
      split
      · split <;> rfl
      · rfl
    split
    · rename_i r answer heq
      rw [heq] at hline
      exact hline ▸ List.prefix_refl _
    · rename_i r heq
      rw [heq] at hline
      rw [← hline]
      split
      · split
        · exact List.prefix_refl _
        · split
          · split
            · rename_i r' hhead
              rw [headerRead_given hhead]
            · rename_i r' hhead
              rw [← headerRead_given hhead]
              exact readBody_given good r' _
          · exact List.prefix_refl _
      · exact readBody_given good r _
  unfold Session.handleIncomingMessage
  split
  · exact List.prefix_refl _
  · dsimp only
    split
    · exact List.prefix_refl _
    · have h := hread (s.inBuffer ++ data)
      split
      · rename_i heq
        rw [heq] at h
        exact h
      · rename_i heq
        rw [heq] at h
        rw [finish_given]
        exact h

theorem readBody_suffix (r : Response) (p : Bytes) {rest : Bytes}
    (h : (r.readBody good p).2 = some rest) : rest <:+ p := by
  unfold Response.readBody at h
  split at h
  · exact absurd h (by simp)
  · rename_i heq
    exact bodyStage_suffix r p ((congrArg Prod.snd heq).trans h)

/-- A call with nothing in the buffer does nothing. -/
theorem handleIncomingMessage_nil (readFields : Bytes → PocoRead) (good : Bytes → Bytes → Bool)
    {s : Session} {data : Bytes} (hbuf : s.inBuffer ++ data = []) :
    s.handleIncomingMessage readFields good data = s := by
  unfold Session.handleIncomingMessage
  split
  · rfl
  · exact if_pos hbuf

/-- Once the header is read, a call is the body stage on what is in the buffer. -/
theorem handleIncomingMessage_body (readFields : Bytes → PocoRead) {s : Session} {data : Bytes}
    (hconnected : s.connected = true)
    (hstage : s.response.parserStage = .body ∨ s.response.parserStage = .finished)
    (hne : s.inBuffer ++ data ≠ []) :
    s.handleIncomingMessage readFields good data =
      Session.ofRead (s.inBuffer ++ data)
        ({ s.response with state := .incomplete }.readBody good (s.inBuffer ++ data)) := by
  have hline : s.response.parserStage ≠ .statusLine := by
    cases hstage with
    | inl h => rw [h]; decide
    | inr h => rw [h]; decide
  have hheader : s.response.parserStage ≠ .header := by
    cases hstage with
    | inl h => rw [h]; decide
    | inr h => rw [h]; decide
  generalize hbuf : s.inBuffer ++ data = buf at hne
  have hread : s.response.readData readFields good buf =
      (({ s.response with state := .incomplete }.readBody good buf).1,
        ({ s.response with state := .incomplete }.readBody good buf).2.map
          fun rest : Bytes => buf.length - rest.length) := by
    simp only [Response.readData, Response.readStatusLine]
    rw [if_neg hline]
    dsimp only
    rw [if_neg fun h => hheader h.1]
  unfold Session.handleIncomingMessage
  simp only [hconnected, Bool.not_true, Bool.false_eq_true, if_false, hbuf]
  rw [if_neg hne, hread]
  cases hbody : { s.response with state := .incomplete }.readBody good buf with
  | mk r rest =>
    cases rest with
    | none =>
      rfl
    | some rest =>
      obtain ⟨used, hused⟩ := readBody_suffix _ buf (congrArg Prod.snd hbody)
      have hdrop : buf.drop (buf.length - rest.length) = rest := by
        rw [← hused, List.length_append, Nat.add_sub_cancel, List.drop_left]
      rw [Session.ofRead, Option.map_some]
      dsimp only
      rw [hdrop]

/-- A line that is there stays the same when more data arrives. -/
theorem line_append {q : Bytes} (h : q.takeWhile (· != lf) ≠ q) (data : Bytes) :
    (q ++ data).takeWhile (· != lf) = q.takeWhile (· != lf) := by
  rw [List.takeWhile_append, if_neg]
  exact fun hlen => h ((List.takeWhile_prefix _).eq_of_length hlen)

theorem Stuck.append {q : Bytes} (h : Stuck q) (data : Bytes) : Stuck (q ++ data) := by
  obtain ⟨hline, n, hpos, hn⟩ := h
  have hsame := line_append hline data
  refine ⟨fun heq => ?_, n, hpos, ?_⟩
  · have hlt : (q.takeWhile (· != lf)).length < q.length :=
      Nat.lt_of_le_of_ne (List.takeWhile_prefix _).length_le
        fun hlen => hline ((List.takeWhile_prefix _).eq_of_length hlen)
    rw [hsame] at heq
    rw [heq, List.length_append] at hlt
    omega
  · rw [← hn, chunkLength_eq, chunkLength_eq, ← takeWhile_line (q ++ data), hsame, takeWhile_line]

theorem readBody_finished {r : Response} (h : r.parserStage = .finished) (p : Bytes) :
    r.readBody good p = (r.complete, some p) := by
  have hstage : r.bodyStage good p = (r, some p) := by
    rw [Response.bodyStage, if_neg]
    rintro ⟨hbody, -⟩
    rw [h] at hbody
    exact absurd hbody (by decide)
  rw [Response.readBody, hstage]
  dsimp only
  rw [if_pos h]

theorem finish_incomplete {r : Response} (h : r.state = .incomplete) (state : State) :
    r.finish state = { r with state := state, finished := r.finished + 1 } := by
  rw [Response.finish, if_neg]
  rw [Response.done, h]
  decide

/-- A read after the end completes the response again, and leaves the bytes in the buffer. -/
theorem handleIncomingMessage_finished (readFields : Bytes → PocoRead) {s : Session} {data : Bytes}
    (hconnected : s.connected = true) (hstage : s.response.parserStage = .finished)
    (hne : s.inBuffer ++ data ≠ []) :
    s.handleIncomingMessage readFields good data =
      { inBuffer := s.inBuffer ++ data
        response := { s.response with state := .complete, finished := s.response.finished + 1 }
        connected := true } := by
  rw [handleIncomingMessage_body readFields hconnected (.inr hstage) hne, readBody_finished,
    Response.complete, finish_incomplete]
  · rfl
  · rfl
  · exact hstage

/-- How a session and a transfer stand to each other after some reads. Again the last three are
the ways in which the reader has gone wrong for good. -/
inductive Follows (toFile : Bool) (a : Announced) (s : Session) (t : Transfer) : Prop
  | receiving : s.connected = true → s.response.state = .incomplete →
    Reading toFile a s.response t → s.inBuffer = t.pending → Follows toFile a s t
  | complete : s.connected = true → s.response.parserStage = .finished →
    s.response.state = .complete → s.response.given = t.data → t.status = .complete →
    t.regular = true → Follows toFile a s t
  | failed : s.connected = false → s.response.state = .error → s.response.given = t.data →
    t.status = .failed → t.regular = true → Follows toFile a s t
  | stuck : s.connected = true → s.response.parserStage = .body →
    s.response.header.chunked = true → s.response.given = t.data → t.status = .failed →
    t.regular = false → Stuck s.inBuffer → Follows toFile a s t
  | accepted : s.connected = true → s.response.parserStage = .finished →
    s.response.state = .complete → t.status = .failed → t.regular = false → Follows toFile a s t
  | surplus : t.data.length < s.response.given.length → t.status ≠ .receiving →
    t.regular = false → Follows toFile a s t

/-- What a read comes to is what the session comes to. -/
theorem ofRead_follows {a : Announced} {r : Response} {t : Transfer} {p : Bytes}
    (buf : Bytes) (hstate : r.state = .incomplete) (h : Outcome toFile a (r.bodyStage good p) t) :
    Follows toFile a (Session.ofRead buf (r.readBody good p)) t := by
  have hext := bodyStage_extends good r p
  rw [Response.readBody]
  generalize r.bodyStage good p = result at h hext
  cases h with
  | @receiving r' t hreading =>
    have hbody : r'.parserStage ≠ .finished := by
      rw [hreading.stage]
      decide
    dsimp only
    rw [if_neg hbody]
    exact .receiving rfl (hext.state.trans hstate) hreading rfl
  | @complete r' t hstage hgiven hstatus hregular =>
    dsimp only
    rw [if_pos hstage, Response.complete, finish_incomplete (hext.state.trans hstate)]
    exact .complete rfl hstage rfl hgiven hstatus hregular
  | @failed r' t hgiven hstatus hregular =>
    refine .failed rfl ?_ ((finish_given _ _).trans hgiven) hstatus hregular
    dsimp only [Session.ofRead]
    rw [finish_incomplete (hext.state.trans hstate)]
  | @stuck r' t q hstage hchunked hgiven hstatus hregular hstuck =>
    have hbody : r'.parserStage ≠ .finished := by
      rw [hstage]
      decide
    dsimp only
    rw [if_neg hbody]
    exact .stuck rfl hstage hchunked hgiven hstatus hregular hstuck
  | @accepted r' t rest hstage hstatus hregular =>
    dsimp only
    rw [if_pos hstage, Response.complete, finish_incomplete (hext.state.trans hstate)]
    exact .accepted rfl hstage rfl hstatus hregular
  | @surplus r' t rest hlonger hended hregular =>
    refine .surplus ?_ hended hregular
    cases rest with
    | none =>
      dsimp only [Session.ofRead]
      rw [finish_given]
      exact hlonger
    | some rest =>
      dsimp only [Session.ofRead]
      split
      · rw [Response.complete, finish_given]
        exact hlonger
      · exact hlonger

theorem step_ended (accepts : Bytes → Bytes → Bool) (a : Announced) {t : Transfer}
    (h : t.status ≠ .receiving) (p : Bytes) : t.step accepts a p = t := if_pos h

/-- **A read keeps the session and the transfer together.** -/
theorem handleIncomingMessage_follows (readFields : Bytes → PocoRead) {a : Announced} {s : Session}
    {t : Transfer} (h : Follows toFile a s t) (data : Bytes) :
    Follows toFile a (s.handleIncomingMessage readFields good data)
      (t.step (accepts good toFile) a data) := by
  by_cases hbuf : s.inBuffer ++ data = []
  · -- Nothing to read, so neither side moves.
    rw [handleIncomingMessage_nil readFields good hbuf]
    by_cases hstatus : t.status = .receiving
    · cases h with
      | receiving hconnected hstate hreading hpending =>
        have hnil : t.pending = [] := hpending ▸ (List.append_eq_nil_iff.mp hbuf).1
        rw [Transfer.step, if_neg (not_not.mpr hstatus), ← hpending, hbuf]
        have hsame : { t with pending := [] } = t := by rw [← hnil]
        rw [hsame, body_nil _ hreading.framed hnil]
        exact .receiving hconnected hstate hreading hpending
      | complete _ _ _ _ hended => exact absurd (hended.symm.trans hstatus) (by decide)
      | failed _ _ _ hended => exact absurd (hended.symm.trans hstatus) (by decide)
      | stuck _ _ _ _ hended => exact absurd (hended.symm.trans hstatus) (by decide)
      | accepted _ _ _ hended => exact absurd (hended.symm.trans hstatus) (by decide)
      | surplus _ hended => exact absurd hstatus hended
    · rw [step_ended _ _ hstatus]
      exact h
  cases h with
  | receiving hconnected hstate hreading hpending =>
    rw [handleIncomingMessage_body readFields hconnected (.inl hreading.stage) hbuf, Transfer.step,
      if_neg (not_not.mpr hreading.receiving), ← hpending]
    have hagain : Reading toFile a { s.response with state := .incomplete }
        { t with pending := [] } :=
      ⟨hreading.stage, hreading.framed, hreading.given, hreading.sink, hreading.file, hreading.size,
        hreading.receiving, hreading.regular⟩
    exact ofRead_follows _ rfl (bodyStage_outcome hagain rfl _)
  | complete hconnected hstage hstate hgiven hstatus hregular =>
    rw [handleIncomingMessage_finished readFields hconnected hstage hbuf,
      step_ended _ _ (by rw [hstatus]; decide)]
    exact .complete rfl hstage rfl hgiven hstatus hregular
  | failed hconnected hstate hgiven hstatus hregular =>
    have hs : s.handleIncomingMessage readFields good data = s := by
      rw [Session.handleIncomingMessage, hconnected]
      rfl
    rw [hs, step_ended _ _ (by rw [hstatus]; decide)]
    exact .failed hconnected hstate hgiven hstatus hregular
  | stuck hconnected hstage hchunked hgiven hstatus hregular hstuck =>
    have hlen : (s.inBuffer ++ data).length ≠ 0 := fun h => hbuf (List.length_eq_zero_iff.mp h)
    rw [handleIncomingMessage_body readFields hconnected (.inl hstage) hbuf,
      step_ended _ _ (by rw [hstatus]; decide)]
    refine ofRead_follows _ rfl ?_
    rw [Response.bodyStage, if_pos ⟨hstage, hlen⟩, if_pos hchunked]
    exact readChunks_stuck _ hstage hchunked hgiven hstatus hregular (hstuck.append data)
  | accepted hconnected hstage hstate hstatus hregular =>
    rw [handleIncomingMessage_finished readFields hconnected hstage hbuf,
      step_ended _ _ (by rw [hstatus]; decide)]
    exact .accepted rfl hstage rfl hstatus hregular
  | surplus hlonger hended hregular =>
    rw [step_ended _ _ hended]
    have hmore := (handleIncomingMessage_given readFields good s data).length_le
    exact .surplus (Nat.lt_of_lt_of_le hlonger hmore) hended hregular

/-- What the reader makes of a header is what the header announces. A response that is not
successful goes to memory. -/
theorem headerRead_announced {r : Response}
    (hsink : 200 ≤ r.statusLine.statusCode ∧ r.statusLine.statusCode < 300 ∨ r.toFile = false)
    (hchunked : r.header.chunked = (r.header.getTransferEncoding == ascii "chunked")) :
    match announced r.statusLine.statusCode r.header with
    | .none => r.headerRead = ({ r with parserStage := .finished }, true)
    | .contradictory => r.headerRead = ({ r with parserStage := .body }, false)
    | a => r.headerRead = ({ r with parserStage := .body }, true) ∧ Framed r.header a := by
  by_cases hbody : 100 ≤ r.statusLine.statusCode ∧ r.statusLine.statusCode < 200 ∨
      r.statusLine.statusCode = 204 ∨ r.statusLine.statusCode = 304
  · rw [announced, if_pos hbody]
    exact if_pos hbody
  have hsame : (if 200 ≤ r.statusLine.statusCode ∧ r.statusLine.statusCode < 300
      then { r with parserStage := .body }
      else { r with parserStage := .body, toFile := false }) = { r with parserStage := .body } := by
    split
    · rfl
    · rename_i hnot
      rw [hsink.resolve_left hnot]
  rw [announced, if_neg hbody]
  cases hhas : r.header.hasContentLength with
  | false =>
    have hread : r.headerRead = ({ r with parserStage := .body }, true) := by
      rw [Response.headerRead]
      simp only [if_neg hbody, hsame, hhas]
      rfl
    rw [hread]
    cases hch : r.header.chunked with
    | false => exact ⟨rfl, hch, hhas⟩
    | true => exact ⟨rfl, hch⟩
  | true =>
    simp only [if_true]
    cases hlen : r.header.getContentLength with
    | none =>
      rw [Response.headerRead]
      simp only [if_neg hbody, hsame, hhas, hlen]
      rfl
    | some n =>
      have hread : r.headerRead =
          if r.header.getTransferEncoding ≠ [] then ({ r with parserStage := .body }, false)
          else if n = 0 then ({ r with parserStage := .finished }, true)
          else ({ r with parserStage := .body }, true) := by
        rw [Response.headerRead]
        simp only [if_neg hbody, hsame, hhas, hlen]
        rfl
      rw [hread]
      dsimp only
      by_cases hte : r.header.getTransferEncoding = []
      · rw [if_neg (not_not.mpr hte), if_neg (not_not.mpr hte)]
        have hplain : r.header.chunked = false := by
          rw [hchunked, hte]
          decide
        by_cases hn : n = 0
        · rw [if_pos hn, if_pos hn]
        · rw [if_neg hn, if_neg hn]
          exact ⟨rfl, hplain, hhas, hlen⟩
      · rw [if_pos hte, if_pos hte]

/-- The header's announcement is what the reader goes by, so that the two start together. -/
theorem afterHeader_follows {statusLine : StatusLine} (fields : List (Bytes × Bytes))
    (h200 : 200 ≤ statusLine.statusCode) (h300 : statusLine.statusCode < 300)
    (head first : Bytes) :
    Follows toFile (announced statusLine.statusCode (Header.empty.setAll fields))
      (Session.afterHeader good (Response.headed toFile statusLine fields) head first)
      (Transfer.start.step (accepts good toFile)
        (announced statusLine.statusCode (Header.empty.setAll fields)) first) := by
  have hhead := headerRead_announced (r := Response.headed toFile statusLine fields)
    (.inl ⟨h200, h300⟩) rfl
  have hstep : ∀ a, Transfer.start.step (accepts good toFile) a first =
      Transfer.start.body (accepts good toFile) a first := fun a => rfl
  rw [show announced (Response.headed toFile statusLine fields).statusLine.statusCode
    (Response.headed toFile statusLine fields).header =
      announced statusLine.statusCode (Header.empty.setAll fields) from rfl] at hhead
  -- The reader waits for a body in the same state for each of the three framings.
  have hbody : ∀ a, (Response.headed toFile statusLine fields).headerRead =
        ({ Response.headed toFile statusLine fields with parserStage := .body }, true) ∧
        Framed (Response.headed toFile statusLine fields).header a →
      Follows toFile a (Session.afterHeader good (Response.headed toFile statusLine fields) head first)
        (Transfer.start.step (accepts good toFile) a first) := by
    rintro a ⟨hread, hframed⟩
    have hreading : Reading toFile a
        { Response.headed toFile statusLine fields with parserStage := .body } Transfer.start :=
      ⟨rfl, hframed, rfl, rfl, fun _ => rfl, rfl, rfl, rfl⟩
    rw [Session.afterHeader, hread, hstep]
    exact ofRead_follows _ rfl (bodyStage_outcome hreading rfl first)
  cases hann : announced statusLine.statusCode (Header.empty.setAll fields) with
  | none =>
    rw [hann] at hhead
    rw [Session.afterHeader, hhead]
    dsimp only
    rw [readBody_finished rfl, Response.complete, finish_incomplete rfl]
    exact .complete rfl rfl rfl rfl rfl rfl
  | contradictory =>
    rw [hann] at hhead
    rw [Session.afterHeader, hhead]
    exact .failed rfl rfl rfl rfl rfl
  | chunked =>
    rw [hann] at hhead
    exact hbody _ hhead
  | length n =>
    rw [hann] at hhead
    exact hbody _ hhead
  | untilClose =>
    rw [hann] at hhead
    exact hbody _ hhead

/-- A call that finds the end of the header goes on as a download. -/
theorem handleIncomingMessage_afterHeader (readFields : Bytes → PocoRead) {s : Session}
    {data head first : Bytes} {r : Response} {h : Header} (hconnected : s.connected = true)
    (hbuf : s.inBuffer ++ data = head ++ first) (hhead : head ≠ [])
    (hline : { s.response with state := .incomplete }.readStatusLine (head ++ first) = (r, none))
    (hstage : r.parserStage = .header)
    (hparse : r.header.parse readFields (head ++ first) = (h, some head.length)) :
    s.handleIncomingMessage readFields good data =
      Session.afterHeader good { r with header := h } head first := by
  have hpos : 0 < head.length := List.length_pos_iff.mpr hhead
  have hne : head ++ first ≠ [] := fun hnil => hhead (List.append_eq_nil_iff.mp hnil).1
  have hlen : (head ++ first).length ≠ 0 := fun hnil => hne (List.length_eq_zero_iff.mp hnil)
  unfold Session.handleIncomingMessage
  simp only [hconnected, Bool.not_true, Bool.false_eq_true, if_false, hbuf]
  rw [if_neg hne]
  simp only [Response.readData, hline]
  rw [if_pos ⟨hstage, hlen⟩, hparse]
  dsimp only
  rw [if_pos hpos, List.drop_left, Session.afterHeader]
  cases hread : { r with header := h }.headerRead with
  | mk r' ok =>
    cases ok with
    | false => rfl
    | true =>
      dsimp only
      cases hbody : r'.readBody good first with
      | mk r'' rest =>
        cases rest with
        | none => rfl
        | some rest =>
          obtain ⟨used, hused⟩ := readBody_suffix r' first (congrArg Prod.snd hbody)
          have hdrop : (head ++ first).drop ((head ++ first).length - rest.length) = rest := by
            rw [← hused, ← List.append_assoc, List.length_append, Nat.add_sub_cancel,
              List.drop_left]
          rw [Session.ofRead, Option.map_some]
          dsimp only
          rw [hdrop]

theorem receive_follows (readFields : Bytes → PocoRead) {a : Announced} (reads : List Bytes) :
    ∀ {s : Session} {t : Transfer}, Follows toFile a s t →
      Follows toFile a (s.receive readFields good reads)
        (reads.foldl (Transfer.step (accepts good toFile) a) t) := by
  induction reads with
  | nil => exact fun h => h
  | cons data reads ih => exact fun h => ih (handleIncomingMessage_follows readFields h data)

end Simulation
/-- **What a download reports.** The reader reports what there was to report exactly when the
stream kept to the framing the header announced: no chunk-size line reached that is not a hex
number, and no bytes in the same read beyond an announced length. -/
theorem downloadContract_iff (readFields : Bytes → PocoRead) (good : Bytes → Bytes → Bool)
    (toFile : Bool) (statusLine : StatusLine) (fields : List (Bytes × Bytes)) (head first : Bytes)
    (reads : List Bytes) (h200 : 200 ≤ statusLine.statusCode) (h300 : statusLine.statusCode < 300) :
    DownloadContract readFields good toFile statusLine fields head first reads ↔
      (transfer good toFile statusLine fields first reads).regular = true := by
  have h : Follows toFile (announced statusLine.statusCode (Header.empty.setAll fields))
      (download readFields good toFile statusLine fields head first reads)
      (transfer good toFile statusLine fields first reads) :=
    receive_follows readFields reads (afterHeader_follows fields h200 h300 head first)
  cases h with
  | receiving hconnected hstate hreading hpending =>
    refine ⟨fun _ => hreading.regular, fun _ => ⟨hreading.given, ?_, ?_⟩⟩
    · rw [hstate, hreading.receiving]
      decide
    · rw [hconnected, hreading.receiving]
      decide
  | complete hconnected hstage hstate hgiven hstatus hregular =>
    refine ⟨fun _ => hregular, fun _ => ⟨hgiven, ?_, ?_⟩⟩
    · rw [hstate, hstatus]
      decide
    · rw [hconnected, hstatus]
      decide
  | failed hconnected hstate hgiven hstatus hregular =>
    refine ⟨fun _ => hregular, fun _ => ⟨hgiven, ?_, ?_⟩⟩
    · rw [hstate, hstatus]
      decide
    · rw [hconnected, hstatus]
      decide
  | stuck hconnected hstage hchunked hgiven hstatus hregular hstuck =>
    refine ⟨fun hc => absurd (hc.error.mpr hstatus) (by rw [hconnected]; decide), fun hreg => ?_⟩
    exact absurd (hregular.symm.trans hreg) (by decide)
  | accepted hconnected hstage hstate hstatus hregular =>
    refine ⟨fun hc => absurd (hc.error.mpr hstatus) (by rw [hconnected]; decide), fun hreg => ?_⟩
    exact absurd (hregular.symm.trans hreg) (by decide)
  | surplus hlonger hended hregular =>
    refine ⟨fun hc => absurd hlonger (by rw [hc.given]; exact Nat.lt_irrefl _), fun hreg => ?_⟩
    exact absurd (hregular.symm.trans hreg) (by decide)


/-- Two chunks that arrive in three pieces. -/
theorem downloadContract_iff_chunks :
    DownloadContract (fun _ => .fields []) (fun _ _ => true) true (.ofCode 200)
        [(ascii "Transfer-Encoding", ascii "chunked")] [] (ascii "2\r\nab")
        [ascii "\r\n1;x=y\r\nc\r", ascii "\n0\r\n\r\n"] ∧
      (transfer (fun _ _ => true) true (.ofCode 200)
        [(ascii "Transfer-Encoding", ascii "chunked")] (ascii "2\r\nab")
        [ascii "\r\n1;x=y\r\nc\r", ascii "\n0\r\n\r\n"]).data = ascii "abc" :=
  ⟨(downloadContract_iff _ _ _ _ _ _ _ _ (by decide) (by decide)).mpr (by decide), by decide⟩

/-- A chunked download is complete at a size line `zz`, after half of the body; and a body of two
bytes is three bytes long. -/
theorem downloadContract_fails :
    ¬ DownloadContract (fun _ => .fields []) (fun _ _ => true) true (.ofCode 200)
        [(ascii "Transfer-Encoding", ascii "chunked")] [] (ascii "2\r\nab\r\nzz\r\ncd") [] ∧
      ¬ DownloadContract (fun _ => .fields []) (fun _ _ => true) true (.ofCode 200)
        [(ascii "Content-Length", ascii "2")] [] (ascii "abc") [] :=
  ⟨fun h => absurd (h.complete.mp (by decide)) (by decide), fun h => absurd h.given (by decide)⟩

end Oxool.Http
