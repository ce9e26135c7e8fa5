import Oxool.Net.Http.Download
import Oxool.Net.Http.Payload
import Oxool.Net.Http.Sending

/-!
# A response there and back

What a server writes, a client reads: however the bytes are cut into reads, the client ends up
complete with the status, the reason phrase and the body, nothing left in its buffer, and its
callback run once (`receive_writeData`).

There are two provisos. A status that has no body (1xx, 204, 304) is read without one, so it must
be sent without one. And after the size line of the last chunk the response counts as complete, so
the CRLF behind it has to come with the line.
-/

set_option autoImplicit false

namespace Oxool.Http

/-! ## What the server sends -/

/-- Statuses whose responses have no body. -/
def Bodiless (code : Nat) : Prop := 100 ≤ code ∧ code < 200 ∨ code = 204 ∨ code = 304

/-- A header with one field about the body, and that one right. -/
def Payload.Announces (headers : List (Bytes × Bytes)) : Payload → Prop
  | plain body _ => named Header.contentLength headers = [ascii (toString body.length)] ∧
    named Header.transferEncoding headers = []
  | chunked _ => named Header.contentLength headers = [] ∧
    named Header.transferEncoding headers = [ascii "chunked"]

/-- A response that can be sent: its lines are lines, its header has one field about the body, and
there is a body only where there may be one. -/
structure Sendable (code : Nat) (headers : List (Bytes × Bytes)) (payload : Payload) : Prop where
  valid : 100 ≤ code ∧ code ≤ 599
  unbroken : Unbroken (payload.response code headers).header.headers
  announces : payload.Announces (payload.response code headers).header.headers
  fits : payload.Fits
  bodiless : Bodiless code → payload.wire = []

theorem appendChunk_foldl (chunks : List Bytes) : ∀ r : Response,
    chunks.foldl Response.appendChunk r = { r with body := r.body ++ chunks.flatMap encodeChunk } := by
  induction chunks with
  | nil => intro r; simp
  | cons c chunks ih =>
    intro r
    rw [List.foldl_cons, ih, Response.appendChunk]
    simp [encodeChunk, hexBytes]

theorem response_body (code : Nat) (headers : List (Bytes × Bytes)) (payload : Payload) :
    (payload.response code headers).body = payload.wire := by
  cases payload with
  | plain body contentType => rfl
  | chunked chunks =>
    rw [Payload.response, appendChunk_foldl]
    simp [Response.appendChunk, Response.forSending, Response.forParsing, Payload.wire, encodeChunks,
      encodeChunk, hexBytes]

theorem response_statusLine (code : Nat) (headers : List (Bytes × Bytes)) (payload : Payload) :
    (payload.response code headers).statusLine = .ofCode code := by
  cases payload with
  | plain body contentType => rfl
  | chunked chunks =>
    rw [Payload.response, appendChunk_foldl]
    rfl

/-- Digits are not blanks. -/
theorem trimmed_toString (n : Nat) : trimmed (ascii (toString n)) = ascii (toString n) := by
  have hdigit : ∀ b : UInt8, isDigit b = true → (b == 32) = false := forall_byte (by decide +kernel)
  have hkeep : ∀ l : Bytes, (∀ b ∈ l, isDigit b = true) → l.dropWhile (· == 32) = l := by
    intro l hl
    cases l with
    | nil => rfl
    | cons b l =>
      rw [List.dropWhile_cons_of_neg (by rw [hdigit b (hl b List.mem_cons_self)]; decide)]
  have hall : ∀ b ∈ ascii (toString n), isDigit b = true := fun b hb => isDigit_of_mem_toString hb
  rw [trimmed, hkeep _ hall, hkeep _ fun b hb => hall b (List.mem_reverse.mp hb), List.reverse_reverse]

/-- Fields that say nothing about the body leave it to the server to announce it. -/
theorem announces_response (code : Nat) {headers : List (Bytes × Bytes)} (payload : Payload)
    (hlength : named Header.contentLength headers = [])
    (hencoding : named Header.transferEncoding headers = []) :
    payload.Announces (payload.response code headers).header.headers := by
  cases payload with
  | plain body contentType =>
    have hcl : named Header.contentLength (Header.setIn Header.contentLength
        (ascii (toString body.length)) headers) = [ascii (toString body.length)] := by
      rw [named_setIn_new (by decide) _ hlength, trimmed_toString]
    have hte : named Header.transferEncoding (Header.setIn Header.contentLength
        (ascii (toString body.length)) headers) = [] := by
      rw [named_setIn_ne (by decide), hencoding]
    have hheaders : ((Payload.plain body contentType).response code headers).header.headers =
        if body ≠ [] then Header.setIn Header.contentType contentType
          (Header.setIn Header.contentLength (ascii (toString body.length)) headers)
        else Header.setIn Header.contentLength (ascii (toString body.length)) headers := by
      simp only [Payload.response, Response.setBody, Response.forSending]
      split <;> rfl
    rw [Payload.Announces, hheaders]
    split
    · rw [named_setIn_ne (k := Header.contentType) (by decide),
        named_setIn_ne (k := Header.contentType) (by decide)]
      exact ⟨hcl, hte⟩
    · exact ⟨hcl, hte⟩
  | chunked chunks =>
    have hheaders : ((Payload.chunked chunks).response code headers).header.headers =
        Header.setIn Header.transferEncoding (ascii "chunked") headers := by
      rw [Payload.response, appendChunk_foldl]
      rfl
    rw [Payload.Announces, hheaders, named_setIn_ne (by decide),
      named_setIn_new (by decide) _ hencoding]
    exact ⟨hlength, rfl⟩

/-! ## What the client makes of the header -/

theorem named_sameFields {fields headers : List (Bytes × Bytes)} (h : SameFields fields headers)
    (key : Bytes) : named key fields = named key headers := by
  have hview : ∀ fs : List (Bytes × Bytes), named key fs =
      ((fs.map fun f => (trimmed f.1, trimmed f.2)).filter fun f => iequal f.1 key).map Prod.snd := by
    intro fs
    rw [List.filter_map, List.map_map]
    rfl
  rw [hview, hview, h]

/-- The client's header, by the fields it was sent. -/
theorem clientHeader_lookup {fields headers : List (Bytes × Bytes)} (h : SameFields fields headers)
    (key : Bytes) :
    (named key headers = [] →
      (Header.empty.setAll fields).has key = false ∧ (Header.empty.setAll fields).get key = []) ∧
    (∀ v, named key headers = [v] →
      (Header.empty.setAll fields).has key = true ∧ (Header.empty.setAll fields).get key = v) := by
  obtain ⟨hnone, hone⟩ := lookup_setFields key fields Header.empty.headers
  rw [named_sameFields h] at hnone hone
  rw [← setAll_headers] at hnone hone
  have hget : (Header.empty.setAll fields).get key =
      (lookup key (Header.empty.setAll fields).headers).getD [] := rfl
  have hhas : (Header.empty.setAll fields).has key =
      (lookup key (Header.empty.setAll fields).headers).isSome := by
    rw [lookup, Option.isSome_map, Header.has, List.isSome_find?]
  refine ⟨fun hn => ?_, fun v hv => ?_⟩
  · rw [hget, hhas, hnone hn]
    exact ⟨rfl, rfl⟩
  · rw [hget, hhas, hone v hv rfl]
    exact ⟨rfl, rfl⟩

/-- **The client knows how the body is framed.** -/
theorem announced_response {code : Nat} {headers fields : List (Bytes × Bytes)} {payload : Payload}
    (h : Sendable code headers payload)
    (hsame : SameFields fields (payload.response code headers).header.headers) :
    announced code (Header.empty.setAll fields) = payload.framing ∨
      announced code (Header.empty.setAll fields) = .none ∧ payload.wire = [] := by
  by_cases hcode : Bodiless code
  · exact .inr ⟨if_pos hcode, h.bodiless hcode⟩
  refine .inl ?_
  have hannounces := h.announces
  obtain ⟨hclnone, hclone⟩ := clientHeader_lookup hsame Header.contentLength
  obtain ⟨htenone, hteone⟩ := clientHeader_lookup hsame Header.transferEncoding
  unfold Bodiless at hcode
  rw [announced, if_neg hcode]
  cases payload with
  | plain body contentType =>
    obtain ⟨hcl, hte⟩ := hannounces
    obtain ⟨hhas, hget⟩ := hclone _ hcl
    obtain ⟨-, hencoding⟩ := htenone hte
    have hlength : (Header.empty.setAll fields).getContentLength = some body.length := by
      have hvalue := digitsValue_toString body.length
      have hfits : body.length < 2 ^ 63 := h.fits
      rw [Header.getContentLength, hget]
      cases hdigits : ascii (toString body.length) with
      | nil =>
        rw [ascii_toString, List.map_eq_nil_iff] at hdigits
        exact absurd hdigits Nat.toDigits_ne_nil
      | cons b bs =>
        rw [hdigits] at hvalue
        dsimp only
        rw [if_pos (isDigit_of_mem_toString (hdigits ▸ List.mem_cons_self)), hvalue, if_pos hfits]
    rw [Header.hasContentLength, hhas, hlength, Header.getTransferEncoding, hencoding]
    rfl
  | chunked chunks =>
    obtain ⟨hcl, hte⟩ := hannounces
    obtain ⟨hhas, -⟩ := hclnone hcl
    obtain ⟨-, hencoding⟩ := hteone _ hte
    have hchunked : (Header.empty.setAll fields).chunked = true := by
      have heq : (Header.empty.setAll fields).chunked =
        ((Header.empty.setAll fields).getTransferEncoding == ascii "chunked") := rfl
      rw [heq, Header.getTransferEncoding, hencoding]
      exact beq_self_eq_true _
    rw [Header.hasContentLength, hhas, hchunked]
    rfl

/-! ## Sessions -/

/-- A client that has sent its request. -/
def Session.fresh : Session := ⟨[], Response.forParsing false, true⟩

/-- A client whose buffer holds the start of a response, up to somewhere in the header. -/
structure InHead (code : Nat) (w : Bytes) (s : Session) : Prop where
  connected : s.connected = true
  buffer : s.inBuffer = w
  response : ∃ state statusLine stage,
    s.response = { Response.forParsing false with
      state := state, statusLine := statusLine, parserStage := stage } ∧
    (stage = .statusLine ∨
      stage = .header ∧ statusLine = .ofCode code ∧ (StatusLine.ofCode code).writeData <+: w)

/-- A client that is in step with a transfer under way. -/
structure InBody (code : Nat) (a : Announced) (s : Session) (t : Transfer) : Prop where
  connected : s.connected = true
  state : s.response.state = .incomplete
  reading : Reading false a s.response t
  buffer : s.inBuffer = t.pending
  memory : s.response.body = s.response.given
  finished : s.response.finished = 0
  statusLine : s.response.statusLine = .ofCode code

/-- A client that has received a whole response. -/
structure Received (code : Nat) (body : Bytes) (s : Session) : Prop where
  connected : s.connected = true
  state : s.response.state = .complete
  body : s.response.body = body
  finished : s.response.finished = 1
  statusLine : s.response.statusLine = .ofCode code
  buffer : s.inBuffer = []

section Body

variable {good : Bytes → Bytes → Bool} {code : Nat} {a : Announced}

/-- What a read of the body comes to, when the transfer goes well. -/
theorem ofRead_inBody {r : Response} {t : Transfer} {p : Bytes} (buf : Bytes)
    (hstate : r.state = .incomplete) (hmemory : r.toFile = false ∧ r.body = r.given)
    (hfinished : r.finished = 0) (hline : r.statusLine = .ofCode code)
    (h : Outcome false a (r.bodyStage good p) t) (hregular : t.regular = true) :
    (t.status = .receiving → InBody code a (Session.ofRead buf (r.readBody good p)) t) ∧
    (t.status = .complete → Received code t.data (Session.ofRead buf (r.readBody good p))) := by
  have hext := bodyStage_extends good r p
  rw [Response.readBody]
  generalize r.bodyStage good p = result at h hext
  cases h with
  | @receiving r' t hreading =>
    have hbody : r'.parserStage ≠ .finished := by
      rw [hreading.stage]
      decide
    dsimp only
    rw [if_neg hbody]
    refine ⟨fun _ => ⟨rfl, hext.state.trans hstate, hreading, rfl, (hext.memory hmemory).2,
      hext.finished.trans hfinished, hext.statusLine.trans hline⟩, fun hdone => ?_⟩
    exact absurd (hreading.receiving.symm.trans hdone) (by decide)
  | @complete r' t hstage hgiven hstatus hregular =>
    dsimp only
    rw [if_pos hstage, Response.complete, finish_incomplete (hext.state.trans hstate)]
    refine ⟨fun hmore => absurd (hstatus.symm.trans hmore) (by decide), fun _ =>
      ⟨rfl, rfl, ((hext.memory hmemory).2).trans hgiven, ?_, hext.statusLine.trans hline, rfl⟩⟩
    dsimp only [Session.ofRead]
    rw [hext.finished, hfinished]
  | @failed r' t hgiven hstatus hregular =>
    exact ⟨fun hmore => absurd (hstatus.symm.trans hmore) (by decide),
      fun hdone => absurd (hstatus.symm.trans hdone) (by decide)⟩
  | stuck q hstage hchunked hgiven hstatus hirregular hstuck =>
    exact absurd (hregular.symm.trans hirregular) (by decide)
  | accepted rest hstage hstatus hirregular =>
    exact absurd (hregular.symm.trans hirregular) (by decide)
  | surplus rest hlonger hended hirregular =>
    exact absurd (hregular.symm.trans hirregular) (by decide)

/-- **A read of the body**, when the transfer goes well. -/
theorem inBody_step (readFields : Bytes → PocoRead) {s : Session} {t : Transfer}
    (h : InBody code a s t) (data : Bytes)
    (hregular : (t.step (accepts good false) a data).regular = true) :
    ((t.step (accepts good false) a data).status = .receiving →
      InBody code a (s.handleIncomingMessage readFields good data)
        (t.step (accepts good false) a data)) ∧
    ((t.step (accepts good false) a data).status = .complete →
      Received code (t.step (accepts good false) a data).data
        (s.handleIncomingMessage readFields good data)) := by
  have hstatus := h.reading.receiving
  by_cases hbuf : s.inBuffer ++ data = []
  · have ht : t.step (accepts good false) a data = t := by
      have hnil : t.pending = [] := h.buffer ▸ (List.append_eq_nil_iff.mp hbuf).1
      have hsame : { t with pending := [] } = t := by rw [← hnil]
      rw [Transfer.step, if_neg (not_not.mpr hstatus), ← h.buffer, hbuf, hsame,
        body_nil _ h.reading.framed hnil]
    rw [handleIncomingMessage_nil readFields good hbuf, ht]
    exact ⟨fun _ => h, fun hdone => absurd (hstatus.symm.trans hdone) (by decide)⟩
  · have hstep : t.step (accepts good false) a data =
        { t with pending := [] }.body (accepts good false) a (s.inBuffer ++ data) := by
      rw [Transfer.step, if_neg (not_not.mpr hstatus), h.buffer]
    have hagain : Reading false a { s.response with state := .incomplete }
        { t with pending := [] } :=
      ⟨h.reading.stage, h.reading.framed, h.reading.given, h.reading.sink, h.reading.file,
        h.reading.size, h.reading.receiving, h.reading.regular⟩
    rw [handleIncomingMessage_body readFields h.connected (.inl h.reading.stage) hbuf]
    rw [hstep] at hregular ⊢
    exact ofRead_inBody _ rfl ⟨h.reading.sink, h.memory⟩ h.finished h.statusLine
      (bodyStage_outcome hagain rfl _) hregular

end Body

section Head

variable {readFields : Bytes → PocoRead} {good : Bytes → Bytes → Bool} {code : Nat}
  {headers fields : List (Bytes × Bytes)} {payload : Payload}

/-- A client that has read the status line. -/
def Response.lined (code : Nat) : Response :=
  { Response.forParsing false with
    state := .incomplete, statusLine := .ofCode code, parserStage := .header }

/-- Data with a whole status line takes the client past it. -/
theorem readStatusLine_whole (hcode : 100 ≤ code ∧ code ≤ 599) {w : Bytes} {s : Session}
    (h : InHead code w s) (rest : Bytes) :
    { s.response with state := .incomplete }.readStatusLine
      ((StatusLine.ofCode code).writeData ++ rest) = (Response.lined code, none) := by
  obtain ⟨state, statusLine, stage, hresponse, hstage⟩ := h.response
  rw [hresponse, Response.readStatusLine]
  cases hstage with
  | inl hstage =>
    subst hstage
    dsimp only
    rw [if_pos rfl, parse_statusLine hcode.1 hcode.2]
    rfl
  | inr hstage =>
    obtain ⟨rfl, rfl, -⟩ := hstage
    rfl

/-- **A read that ends in the header** leaves everything in the buffer. -/
theorem inHead_step (h : Sendable code headers payload) {w d : Bytes} {s : Session}
    (hs : InHead code w s) (hpre : w ++ d <+: (payload.response code headers).head)
    (hne : w ++ d ≠ (payload.response code headers).head) :
    InHead code (w ++ d) (s.handleIncomingMessage readFields good d) := by
  have hline := response_statusLine code headers payload
  by_cases hbuf : s.inBuffer ++ d = []
  · rw [handleIncomingMessage_nil readFields good hbuf]
    rw [hs.buffer] at hbuf
    obtain ⟨rfl, rfl⟩ := List.append_eq_nil_iff.mp hbuf
    exact hs
  have hread : ∃ state statusLine stage,
      s.response.readData readFields good (w ++ d) =
        ({ Response.forParsing false with
          state := state, statusLine := statusLine, parserStage := stage }, some 0) ∧
      (stage = .statusLine ∨ stage = .header ∧ statusLine = .ofCode code ∧
        (StatusLine.ofCode code).writeData <+: w ++ d) := by
    by_cases hwhole : (StatusLine.ofCode code).writeData <+: w ++ d
    · obtain ⟨rest, hrest⟩ := hwhole
      refine ⟨.incomplete, .ofCode code, .header, ?_, .inr ⟨rfl, rfl, rest, hrest⟩⟩
      have hlen : (w ++ d).length ≠ 0 := by
        rw [hs.buffer] at hbuf
        exact fun hnil => hbuf (List.length_eq_zero_iff.mp hnil)
      have hstatus := readStatusLine_whole h.valid hs rest
      rw [hrest] at hstatus
      simp only [Response.readData, hstatus]
      rw [if_pos ⟨rfl, hlen⟩, parse_head_cut readFields hline h.unbroken hpre hne]
      rfl
    · -- The status line is not complete, so the client has not passed it.
      obtain ⟨state, statusLine, stage, hresponse, hstage⟩ := hs.response
      have hstart : stage = .statusLine := by
        refine hstage.resolve_right fun hpassed => hwhole ?_
        exact hpassed.2.2.trans (List.prefix_append _ _)
      have hhead : (StatusLine.ofCode code).writeData <+: (payload.response code headers).head := by
        rw [Response.head, hline, List.append_assoc]
        exact List.prefix_append _ _
      have hcut : w ++ d <+: (StatusLine.ofCode code).writeData :=
        (List.prefix_or_prefix_of_prefix hpre hhead).resolve_right hwhole
      have hparse := parse_statusLine_cut h.valid.1 h.valid.2 statusLine hcut
        fun heq => hwhole (heq ▸ List.prefix_refl _)
      cases hp : statusLine.parse (w ++ d) with
      | mk statusLine' result =>
        rw [hp] at hparse
        have hresult : result = .incomplete := hparse
        subst hresult
        refine ⟨.incomplete, statusLine', .statusLine, ?_, .inl rfl⟩
        rw [hresponse, hstart, Response.readData, Response.readStatusLine]
        dsimp only
        rw [if_pos rfl, hp]
  obtain ⟨state, statusLine, stage, hread, hstage⟩ := hread
  rw [Session.handleIncomingMessage, hs.connected]
  dsimp only
  rw [if_neg (by decide), if_neg hbuf, hs.buffer, hread]
  exact ⟨rfl, rfl, state, statusLine, stage, rfl, hstage⟩

/-- **A read that reaches the end of the header** goes on as a download. -/
theorem inHead_leave (h : Sendable code headers payload)
    (hpoco : ∀ rest, readFields ((payload.response code headers).head ++ rest) = .fields fields)
    {w d u : Bytes} {s : Session} (hs : InHead code w s)
    (hwd : w ++ d = (payload.response code headers).head ++ u) :
    s.handleIncomingMessage readFields good d =
      Session.afterHeader good (Response.headed false (.ofCode code) fields)
        (payload.response code headers).head u := by
  have hline := response_statusLine code headers payload
  have hne : (payload.response code headers).head ≠ [] := by
    rw [head_eq hline]
    simp [crlf]
  have hstatus : { s.response with state := .incomplete }.readStatusLine
      ((payload.response code headers).head ++ u) = (Response.lined code, none) := by
    have hsplit : (payload.response code headers).head ++ u = (StatusLine.ofCode code).writeData ++
        ((payload.response code headers).header.writeData ++ crlf ++ u) := by
      rw [Response.head, hline]
      simp
    rw [hsplit]
    exact readStatusLine_whole h.valid hs _
  exact handleIncomingMessage_afterHeader readFields hs.connected (by rw [hs.buffer, hwd]) hne
    hstatus rfl (parse_head readFields hline h.unbroken (hpoco u) Header.empty)

end Head

/-! ## The round trip -/

/-- A cut that leaves `v` to come does not fall behind the size line of the last chunk. -/
def CleanCut : Payload → Bytes → Prop
  | .plain _ _, _ => True
  | .chunked _, v => v.length ≠ 1 ∧ v.length ≠ 2

theorem progress_status {payload : Payload} {v : Bytes} {t : Transfer} (h : Progress v t payload)
    (hcut : CleanCut payload v) :
    t.regular = true ∧
      (t.status = .receiving ∨ t.status = .complete ∧ t.data = payload.bytes ∧ v = []) := by
  cases payload with
  | plain body contentType =>
    obtain ⟨-, hregular, hdata, hdone, hmore⟩ := h
    refine ⟨hregular, ?_⟩
    by_cases hv : v = []
    · rw [hv, List.append_nil] at hdata
      exact .inr ⟨hdone hv, hdata, hv⟩
    · exact .inl (hmore hv)
  | chunked chunks =>
    obtain ⟨hregular, h⟩ := h
    refine ⟨hregular, ?_⟩
    split at h
    · exact .inl h.1
    · rename_i hv
      obtain ⟨h1, h2⟩ := hcut
      exact .inr ⟨h.1, h.2, List.length_eq_zero_iff.mp (by omega)⟩

theorem progress_nil {payload : Payload} {t : Transfer} (h : Progress [] t payload) :
    t.status = .complete := by
  cases payload with
  | plain body contentType =>
    obtain ⟨-, -, -, hdone, -⟩ := h
    exact hdone rfl
  | chunked chunks => exact h.2.1

/-- Where a client is when `v` is still to come. -/
inductive Along (code : Nat) (headers : List (Bytes × Bytes)) (payload : Payload) (v : Bytes)
    (s : Session) : Prop
  | head (w : Bytes) : w ++ v = (payload.response code headers).writeData →
    w <+: (payload.response code headers).head → w ≠ (payload.response code headers).head →
    InHead code w s → Along code headers payload v s
  | body (t : Transfer) : payload.framing ≠ .none → Progress v t payload →
    InBody code payload.framing s t → Along code headers payload v s
  | received : v = [] → Received code payload.bytes s → Along code headers payload v s

section Run

variable {readFields : Bytes → PocoRead} {good : Bytes → Bytes → Bool} {code : Nat}
  {headers fields : List (Bytes × Bytes)} {payload : Payload}

theorem wire_of_framing_none (h : payload.framing = .none) :
    payload.wire = [] ∧ payload.bytes = [] := by
  cases payload with
  | plain body contentType =>
    rw [Payload.framing] at h
    split at h
    · rename_i hbody
      exact ⟨List.length_eq_zero_iff.mp hbody, List.length_eq_zero_iff.mp hbody⟩
    · exact absurd h (by simp)
  | chunked chunks => exact absurd h (by simp [Payload.framing])

theorem bytes_of_wire_nil (h : payload.wire = []) : payload.bytes = [] := by
  cases payload with
  | plain body contentType => exact h
  | chunked chunks => exact absurd h (by simp [Payload.wire, encodeChunks, encodeChunk, crlf])

/-- The end of the header, and what of the body came with it. -/
theorem afterHeader_along (h : Sendable code headers payload)
    (hsame : SameFields fields (payload.response code headers).header.headers) {u v : Bytes}
    (hwire : u ++ v = payload.wire) (hcut : CleanCut payload v) (head : Bytes) :
    Along code headers payload v
      (Session.afterHeader good (Response.headed false (.ofCode code) fields) head u) := by
  have hread := headerRead_announced (r := Response.headed false (.ofCode code) fields) (.inr rfl) rfl
  rw [show announced (Response.headed false (.ofCode code) fields).statusLine.statusCode
    (Response.headed false (.ofCode code) fields).header =
      announced code (Header.empty.setAll fields) from rfl] at hread
  have hann := announced_response h hsame
  by_cases hnone : announced code (Header.empty.setAll fields) = .none
  · have hempty : payload.wire = [] := by
      cases hann with
      | inl hframing => exact (wire_of_framing_none (hframing ▸ hnone)).1
      | inr hbodiless => exact hbodiless.2
    rw [hempty] at hwire
    rw [hnone] at hread
    rw [Session.afterHeader, hread]
    dsimp only
    rw [readBody_finished rfl, Response.complete, finish_incomplete rfl]
    obtain ⟨rfl, rfl⟩ := List.append_eq_nil_iff.mp hwire
    exact .received rfl ⟨rfl, rfl, (bytes_of_wire_nil hempty).symm, rfl, rfl, rfl⟩
  · have hframing : announced code (Header.empty.setAll fields) = payload.framing :=
      hann.resolve_right fun hbodiless => hnone hbodiless.1
    have hne : payload.framing ≠ .none := hframing ▸ hnone
    have hbody : (Response.headed false (.ofCode code) fields).headerRead =
          ({ Response.headed false (.ofCode code) fields with parserStage := .body }, true) ∧
        Framed (Response.headed false (.ofCode code) fields).header payload.framing := by
      rw [hframing] at hread
      cases payload with
      | plain body contentType =>
        have hlen : body.length ≠ 0 := fun hnil => hne (if_pos hnil)
        rw [Payload.framing, if_neg hlen] at hread ⊢
        exact hread
      | chunked chunks => exact hread
    obtain ⟨hhead, hframed⟩ := hbody
    have hreading : Reading false payload.framing
        { Response.headed false (.ofCode code) fields with parserStage := .body } Transfer.start :=
      ⟨rfl, hframed, rfl, rfl, fun _ => rfl, rfl, rfl, rfl⟩
    have hprogress : Progress v (Transfer.start.body (accepts good false) payload.framing u)
        payload :=
      progress_step (fun _ _ => rfl) h.fits hne rfl (by rw [hwire]; exact progress_start hne)
    obtain ⟨hregular, hstatus⟩ := progress_status hprogress hcut
    obtain ⟨hmore, hdone⟩ := ofRead_inBody (head ++ u) rfl ⟨rfl, rfl⟩ rfl rfl
      (bodyStage_outcome hreading rfl u) hregular
    rw [Session.afterHeader, hhead]
    cases hstatus with
    | inl hstatus => exact .body _ hne hprogress (hmore hstatus)
    | inr hstatus =>
      obtain ⟨hcomplete, hdata, hv⟩ := hstatus
      exact .received hv (hdata ▸ hdone hcomplete)

/-- **A read on the way.** -/
theorem along_step (h : Sendable code headers payload)
    (hpoco : ∀ rest, readFields ((payload.response code headers).head ++ rest) = .fields fields)
    (hsame : SameFields fields (payload.response code headers).header.headers) {d v : Bytes}
    {s : Session} (hs : Along code headers payload (d ++ v) s) (hcut : CleanCut payload v) :
    Along code headers payload v (s.handleIncomingMessage readFields good d) := by
  cases hs with
  | head w hstream hpre hne hin =>
    rw [← List.append_assoc, writeData_eq, response_body] at hstream
    by_cases hwhole : (payload.response code headers).head <+: w ++ d
    · obtain ⟨u, hu⟩ := hwhole
      rw [← hu, List.append_assoc] at hstream
      rw [inHead_leave h hpoco hin hu.symm]
      exact afterHeader_along h hsame (List.append_cancel_left hstream) hcut _
    · have hcutHead : w ++ d <+: (payload.response code headers).head :=
        (List.prefix_or_prefix_of_prefix ⟨v, hstream⟩ (List.prefix_append _ _)).resolve_right hwhole
      have hneHead : w ++ d ≠ (payload.response code headers).head :=
        fun heq => hwhole (heq ▸ List.prefix_refl _)
      refine .head (w ++ d) ?_ hcutHead hneHead (inHead_step h hin hcutHead hneHead)
      rw [hstream, writeData_eq, response_body]
  | body t hne hprogress hin =>
    have hnext : Progress v (t.step (accepts good false) payload.framing d) payload :=
      progress_step (fun _ _ => rfl) h.fits hne hin.reading.receiving hprogress
    obtain ⟨hregular, hstatus⟩ := progress_status hnext hcut
    obtain ⟨hmore, hdone⟩ := inBody_step readFields hin d hregular
    cases hstatus with
    | inl hstatus => exact .body _ hne hnext (hmore hstatus)
    | inr hstatus =>
      obtain ⟨hcomplete, hdata, hv⟩ := hstatus
      exact .received hv (hdata ▸ hdone hcomplete)
  | received hnil hreceived =>
    obtain ⟨rfl, rfl⟩ := List.append_eq_nil_iff.mp hnil
    rw [handleIncomingMessage_nil readFields good (by rw [hreceived.buffer]; rfl)]
    exact .received rfl hreceived

theorem along_receive (h : Sendable code headers payload)
    (hpoco : ∀ rest, readFields ((payload.response code headers).head ++ rest) = .fields fields)
    (hsame : SameFields fields (payload.response code headers).header.headers)
    (reads : List Bytes) :
    ∀ {s : Session}, Along code headers payload reads.flatten s →
      (∀ later, later <:+ reads → CleanCut payload later.flatten) →
      Along code headers payload [] (s.receive readFields good reads) := by
  induction reads with
  | nil => exact fun hs _ => hs
  | cons d reads ih =>
    intro s hs hcuts
    have hstep : Along code headers payload reads.flatten
        (s.handleIncomingMessage readFields good d) :=
      along_step h hpoco hsame hs (hcuts reads (List.suffix_cons d reads))
    exact ih hstep fun later hlater => hcuts later (hlater.trans (List.suffix_cons d reads))

end Run

/-- A client that got a response over: complete once, with the status, the reason phrase and the
body, and nothing left over. -/
structure RoundTrip (readFields : Bytes → PocoRead) (good : Bytes → Bytes → Bool) (code : Nat)
    (payload : Payload) (reads : List Bytes) : Prop where
  state : (Session.fresh.receive readFields good reads).response.state = .complete
  statusCode : (Session.fresh.receive readFields good reads).response.statusLine.statusCode = code
  reasonPhrase : (Session.fresh.receive readFields good reads).response.statusLine.reasonPhrase =
    getReasonPhraseForCode code
  body : (Session.fresh.receive readFields good reads).response.body = payload.bytes
  consumed : (Session.fresh.receive readFields good reads).inBuffer = []
  finished : (Session.fresh.receive readFields good reads).response.finished = 1

/-- **A response there and back**, cut anywhere but behind the size line of the last chunk. -/
theorem receive_writeData (readFields : Bytes → PocoRead) (good : Bytes → Bytes → Bool) (code : Nat)
    (headers fields : List (Bytes × Bytes)) (payload : Payload) (reads : List Bytes)
    (h : Sendable code headers payload)
    (hpoco : ∀ rest, readFields ((payload.response code headers).head ++ rest) = .fields fields)
    (hsame : SameFields fields (payload.response code headers).header.headers)
    (hreads : reads.flatten = (payload.response code headers).writeData)
    (hcuts : ∀ later, later <:+ reads → CleanCut payload later.flatten) :
    RoundTrip readFields good code payload reads := by
  have hne : (payload.response code headers).head ≠ [] := by
    rw [head_eq (response_statusLine code headers payload)]
    simp [crlf]
  have hstart : Along code headers payload reads.flatten Session.fresh := by
    refine .head [] hreads List.nil_prefix hne.symm ⟨rfl, rfl, .new, .empty, .statusLine, rfl, ?_⟩
    exact .inl rfl
  have hend : Along code headers payload [] (Session.fresh.receive readFields good reads) :=
    along_receive h hpoco hsame reads hstart hcuts
  cases hend with
  | head w hstream hpre hneq hin =>
    -- The whole response has arrived, and with it the header.
    rw [List.append_nil, writeData_eq] at hstream
    have hlen := hpre.length_le
    rw [hstream, List.length_append] at hlen
    refine absurd (hpre.eq_of_length ?_) hneq
    rw [hstream, List.length_append]
    omega
  | body t hframing hprogress hin =>
    exact absurd (hin.reading.receiving.symm.trans (progress_nil hprogress)) (by decide)
  | received _ hreceived =>
    exact ⟨hreceived.state, by rw [hreceived.statusLine]; rfl, by rw [hreceived.statusLine]; rfl,
      hreceived.body, hreceived.buffer, hreceived.finished⟩

/-- Two chunks that arrive in three pieces, the first of them cut in the status line. -/
theorem receive_writeData_chunks :
    RoundTrip (fun _ => .fields [(ascii "X", ascii "y"), (ascii "Transfer-Encoding", ascii "chunked")])
      (fun _ _ => true) 200 (.chunked [ascii "ab", ascii "c"])
      [ascii "HTTP/1.1 20", ascii "0 OK\r\nX: y\r\nTransfer-Encoding: chunked\r\n\r\n2\r\na",
        ascii "b\r\n1\r\nc\r\n0\r\n\r\n"] := by
  refine receive_writeData _ _ 200 [(ascii "X", ascii "y")] _ _ _
    ⟨by decide, ?_, announces_response 200 _ (by decide) (by decide), ?_, ?_⟩ (fun _ => rfl) rfl (by decide) ?_
  · unfold Unbroken
    decide
  · unfold Payload.Fits
    decide
  · unfold Bodiless
    decide
  · intro later hlater
    have hall : ∀ later ∈ [ascii "HTTP/1.1 20",
        ascii "0 OK\r\nX: y\r\nTransfer-Encoding: chunked\r\n\r\n2\r\na",
        ascii "b\r\n1\r\nc\r\n0\r\n\r\n"].tails,
        later.flatten.length ≠ 1 ∧ later.flatten.length ≠ 2 := by decide
    exact hall later ((List.mem_tails _ _).mpr hlater)

/-- The body of a 204 is not read. -/
theorem receive_writeData_noContent :
    [((Payload.plain (ascii "x") (ascii "text/plain")).response 204 []).writeData].flatten =
        ((Payload.plain (ascii "x") (ascii "text/plain")).response 204 []).writeData ∧
      ¬ RoundTrip
        (fun _ => .fields [(ascii "Content-Length", ascii "1"), (ascii "Content-Type", ascii "text/plain")])
        (fun _ _ => true) 204 (.plain (ascii "x") (ascii "text/plain"))
        [((Payload.plain (ascii "x") (ascii "text/plain")).response 204 []).writeData] :=
  ⟨by decide, fun h => absurd h.body (by decide)⟩

end Oxool.Http
