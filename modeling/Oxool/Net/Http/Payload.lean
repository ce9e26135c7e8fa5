import Oxool.Net.Http.Fields

/-!
# Payloads

The two ways in which a server sends a body: in one piece with its length, or in chunks that end
with an empty one. Either way the transfer of the bytes comes to the body, however they are cut
(`Progress`).

The empty chunk ends the transfer at its size line. What comes after the line is a CRLF, and it is
part of the response only when it arrives together with the line.
-/

set_option autoImplicit false

namespace Oxool.Http

inductive Payload
  | plain (body contentType : Bytes)
  | chunked (chunks : List Bytes)

namespace Payload

/-- The body a client is meant to get. -/
def bytes : Payload → Bytes
  | plain body _ => body
  | chunked chunks => chunks.flatten

/-- The response a server sends. -/
def response (code : Nat) (headers : List (Bytes × Bytes)) : Payload → Response
  | plain body contentType => (Response.forSending code headers).setBody body contentType
  | chunked chunks =>
    let r := Response.forSending code headers
    let r := { r with header := r.header.set Header.transferEncoding (ascii "chunked") }
    (chunks.foldl Response.appendChunk r).appendChunk []

end Payload

/-! ## Chunks -/

def hexBytes (n : Nat) : Bytes := (Nat.toDigits 16 n).map fun c => UInt8.ofNat c.toNat

def encodeChunk (chunk : Bytes) : Bytes := hexBytes chunk.length ++ crlf ++ chunk ++ crlf

/-- Some chunks, and the empty chunk at the end. -/
def encodeChunks (chunks : List Bytes) : Bytes := chunks.flatMap encodeChunk ++ encodeChunk []

theorem isHexDigit_of_mem_hexBytes {n : Nat} {b : UInt8} (h : b ∈ hexBytes n) :
    isHexDigit b = true := by
  obtain ⟨d, hd, rfl⟩ := mem_toDigits _ (by decide) n b h
  rw [isHexDigit, hex_value d hd]
  rfl

theorem hexBytes_ne_nil (n : Nat) : hexBytes n ≠ [] := by
  rw [hexBytes, ne_eq, List.map_eq_nil_iff]
  exact Nat.toDigits_ne_nil

theorem hexValue_hexBytes (n : Nat) : hexValue (hexBytes n) = n :=
  readDigits_toDigits _ (by decide) (fun d hd => by rw [hex_value d hd]; rfl) n

/-- The digits before the last one are those of the number without it. -/
theorem hexValue_dropLast (n : Nat) : hexValue (hexBytes n).dropLast = n / 16 := by
  by_cases hn : n < 16
  · rw [hexBytes, Nat.toDigits_of_lt_base hn, Nat.div_eq_of_lt hn]
    rfl
  · have hle : 16 ≤ n := Nat.le_of_not_lt hn
    rw [hexBytes, Nat.toDigits_of_base_le (by decide) hle, List.map_append, List.map_singleton,
      List.dropLast_concat]
    exact hexValue_hexBytes (n / 16)

theorem sizeLine_hexBytes {n : Nat} (hn : n < 2 ^ 63 - 16) : sizeLine (hexBytes n ++ [cr]) = .size n := by
  have hdigits : (hexBytes n ++ [cr]).takeWhile isHexDigit = hexBytes n := by
    rw [List.takeWhile_append_of_pos fun b hb => isHexDigit_of_mem_hexBytes hb]
    exact List.append_nil _
  have hsmall : ¬ n / 16 ≥ (2 ^ 63 - 1) / 16 := by omega
  rw [sizeLine, hdigits, hexValue_dropLast, if_neg hsmall, List.drop_left, hexValue_hexBytes, if_neg]
  rintro (h | h)
  · exact hexBytes_ne_nil n h
  · exact absurd h (by decide)

/-- A size line and what follows it. -/
theorem takeWhile_hexBytes (n : Nat) (rest : Bytes) :
    (hexBytes n ++ crlf ++ rest).takeWhile (· != lf) = hexBytes n ++ [cr] := by
  rw [List.append_assoc,
    List.takeWhile_append_of_pos fun b hb => hexDigit_ne_lf (isHexDigit_of_mem_hexBytes hb)]
  rfl

theorem drop_hexBytes (n : Nat) (rest : Bytes) :
    (hexBytes n ++ crlf ++ rest).drop ((hexBytes n ++ [cr]).length + 1) = rest := by
  have hlen : (hexBytes n ++ [cr]).length + 1 = (hexBytes n ++ crlf).length := by simp [crlf]
  rw [hlen, List.drop_left]

theorem hexBytes_line_ne (n : Nat) (rest : Bytes) :
    (hexBytes n ++ crlf ++ rest).takeWhile (· != lf) ≠ hexBytes n ++ crlf ++ rest := by
  rw [takeWhile_hexBytes]
  simp [crlf]

/-- A size line that is cut short is no line. -/
theorem takeWhile_hexBytes_cut {n : Nat} {w : Bytes} (h : w <+: hexBytes n ++ crlf)
    (hne : w ≠ hexBytes n ++ crlf) : w.takeWhile (· != lf) = w := by
  have hsplit : hexBytes n ++ crlf = hexBytes n ++ [cr] ++ [lf] := by simp [crlf]
  rw [hsplit] at h hne
  have hcut := (List.prefix_concat_iff.mp h).resolve_left hne
  refine List.takeWhile_eq_self_iff.mpr fun b hb => ?_
  cases List.mem_append.mp (hcut.subset hb) with
  | inl hb => exact hexDigit_ne_lf (isHexDigit_of_mem_hexBytes hb)
  | inr hb => rw [List.mem_singleton.mp hb]; decide

section Chunks

variable {accepts : Bytes → Bytes → Bool} (haccepts : ∀ file data, accepts file data = true)

include haccepts in
/-- A chunk is taken, and the loop goes on behind it. -/
theorem chunks_encodeChunk {c : Bytes} (hc : c ≠ []) (hlen : c.length < 2 ^ 63 - 16) {rest : Bytes}
    (hrest : skipCRLF rest = rest) (fuel : Nat) {t : Transfer} (ht : t.status = .receiving) :
    t.chunks accepts (fuel + 1) (encodeChunk c ++ rest) =
      { t with data := t.data ++ c }.chunks accepts fuel rest := by
  obtain ⟨n, hn⟩ : ∃ n, c.length = n + 1 :=
    ⟨c.length - 1, by have := List.length_pos_iff.mpr hc; omega⟩
  have hsplit : encodeChunk c ++ rest = hexBytes (n + 1) ++ crlf ++ (c ++ (crlf ++ rest)) := by
    rw [encodeChunk, hn]
    simp
  have hsize : sizeLine ((hexBytes (n + 1) ++ crlf ++ (c ++ (crlf ++ rest))).takeWhile (· != lf)) =
      .size (n + 1) := by
    rw [takeWhile_hexBytes]
    exact sizeLine_hexBytes (by omega)
  have hdeliver : t.deliver accepts c = { t with data := t.data ++ c } := by
    rw [Transfer.deliver, haccepts, if_pos rfl]
  have hskip : skipCRLF (crlf ++ rest) = rest :=
    (show skipCRLF (crlf ++ rest) = skipCRLF rest from rfl).trans hrest
  rw [hsplit, chunks_size accepts fuel t (hexBytes_line_ne _ _) hsize]
  dsimp only
  rw [takeWhile_hexBytes, drop_hexBytes, if_neg (by simp [hn, crlf]), ← hn, List.take_left,
    List.drop_left, hdeliver, if_neg (by rw [ht]; decide), hskip]

/-- The loop waits for a chunk that is cut short. -/
theorem chunks_cut {c : Bytes} (hc : c ≠ []) (hlen : c.length < 2 ^ 63 - 16) {w : Bytes}
    (hw : w <+: encodeChunk c) (hne : w ≠ encodeChunk c) (fuel : Nat) (t : Transfer) :
    t.chunks accepts (fuel + 1) w = { t with pending := w } := by
  obtain ⟨n, hn⟩ : ∃ n, c.length = n + 1 :=
    ⟨c.length - 1, by have := List.length_pos_iff.mpr hc; omega⟩
  have hsplit : encodeChunk c = hexBytes (n + 1) ++ crlf ++ (c ++ crlf) := by
    rw [encodeChunk, hn, List.append_assoc _ c]
  rw [hsplit] at hw hne
  by_cases hline : hexBytes (n + 1) ++ crlf <+: w
  · obtain ⟨y, rfl⟩ := hline
    have hsize : sizeLine ((hexBytes (n + 1) ++ crlf ++ y).takeWhile (· != lf)) = .size (n + 1) := by
      rw [takeWhile_hexBytes]
      exact sizeLine_hexBytes (by omega)
    have hy := (List.prefix_append_right_inj _).mp hw
    have hshort : y.length < n + 1 + 2 := by
      have hle := hy.length_le
      have hneq : y.length ≠ (c ++ crlf).length := fun h => hne (by rw [hy.eq_of_length h])
      have hcl : (c ++ crlf).length = n + 1 + 2 := by
        rw [List.length_append, hn]
        rfl
      omega
    rw [chunks_size accepts fuel t (hexBytes_line_ne _ _) hsize]
    dsimp only
    rw [takeWhile_hexBytes, drop_hexBytes, if_pos hshort]
  · have hcut : w <+: hexBytes (n + 1) ++ crlf :=
      (List.prefix_or_prefix_of_prefix hw (List.prefix_append _ _)).resolve_right hline
    refine chunks_wait accepts fuel t (takeWhile_hexBytes_cut hcut fun h => hline ?_)
    rw [h]

/-- The empty chunk ends the transfer once its size line is there. -/
theorem chunks_last {w v : Bytes} (h : w ++ v = encodeChunk []) (fuel : Nat) (t : Transfer) :
    t.chunks accepts (fuel + 1) w =
      if 2 < v.length then { t with pending := w }
      else { t with pending := [], status := .complete } := by
  have hsplit : encodeChunk [] = hexBytes 0 ++ crlf ++ crlf := by
    simp [encodeChunk]
  have h3 : (hexBytes 0 ++ crlf).length = 3 := by decide
  have hlen := congrArg List.length h
  rw [hsplit, List.length_append, List.length_append, h3, show crlf.length = 2 from rfl] at hlen
  rw [hsplit] at h
  split
  · refine chunks_wait accepts fuel t (takeWhile_hexBytes_cut (n := 0) ?_ fun heq => ?_)
    · refine List.prefix_of_prefix_length_le ⟨v, h⟩ (List.prefix_append _ _) ?_
      omega
    · rw [heq] at hlen
      omega
  · obtain ⟨y, rfl⟩ : hexBytes 0 ++ crlf <+: w :=
      List.prefix_of_prefix_length_le (List.prefix_append _ _) ⟨v, h⟩ (by omega)
    refine chunks_zero accepts fuel t (hexBytes_line_ne _ _) ?_
    rw [takeWhile_hexBytes]
    exact sizeLine_hexBytes (by decide)

/-- What follows a chunk starts with a hex digit, so that skipping line breaks stops there. -/
theorem skipCRLF_encodeChunks {w v : Bytes} {chunks : List Bytes}
    (h : w ++ v = encodeChunks chunks) : skipCRLF w = w := by
  obtain ⟨n, rest, hstart⟩ : ∃ n rest, encodeChunks chunks = hexBytes n ++ rest := by
    cases chunks with
    | nil => exact ⟨0, crlf ++ crlf, by simp [encodeChunks, encodeChunk]⟩
    | cons c chunks =>
      refine ⟨c.length, crlf ++ (c ++ (crlf ++ encodeChunks chunks)), ?_⟩
      simp only [encodeChunks, encodeChunk, List.flatMap_cons, List.append_assoc]
  cases w with
  | nil => rfl
  | cons b w =>
    have hb : isHexDigit b = true := by
      cases hhex : hexBytes n with
      | nil => exact absurd hhex (hexBytes_ne_nil n)
      | cons x xs =>
        rw [hstart, hhex] at h
        rw [(List.cons.inj h).1]
        exact isHexDigit_of_mem_hexBytes (hhex ▸ List.mem_cons_self)
    have hnot : ∀ x : UInt8, isHexDigit x = true → (x == cr || x == lf) = false :=
      forall_byte (by decide +kernel)
    rw [skipCRLF, List.dropWhile_cons_of_neg (by rw [hnot b hb]; decide)]

include haccepts in
/-- **A stream of chunks, cut anywhere.** `w` has arrived and `v` is still to come. -/
theorem chunks_stream (chunks : List Bytes) :
    ∀ {fuel : Nat} {t : Transfer} {w v : Bytes},
      (∀ c ∈ chunks, c ≠ [] ∧ c.length < 2 ^ 63 - 16) → w ++ v = encodeChunks chunks →
      w.length < fuel → t.status = .receiving →
      if 2 < v.length then
        ∃ done left w', chunks = done ++ left ∧ w' ++ v = encodeChunks left ∧
          t.chunks accepts fuel w = { t with data := t.data ++ done.flatten, pending := w' }
      else
        t.chunks accepts fuel w =
          { t with data := t.data ++ chunks.flatten, pending := [], status := .complete } := by
  induction chunks with
  | nil =>
    intro fuel t w v _ h hfuel ht
    obtain ⟨fuel, rfl⟩ : ∃ k, fuel = k + 1 := ⟨fuel - 1, by omega⟩
    have hlast : t.chunks accepts (fuel + 1) w = _ := chunks_last h fuel t
    split
    · rename_i hv
      rw [if_pos hv] at hlast
      exact ⟨[], [], w, rfl, h, by rw [hlast, List.flatten_nil, List.append_nil]⟩
    · rename_i hv
      rw [if_neg hv] at hlast
      rw [hlast, List.flatten_nil, List.append_nil]
  | cons c chunks ih =>
    intro fuel t w v hchunks h hfuel ht
    obtain ⟨fuel, rfl⟩ : ∃ k, fuel = k + 1 := ⟨fuel - 1, by omega⟩
    obtain ⟨hc, hclen⟩ := hchunks c List.mem_cons_self
    have hsplit : encodeChunks (c :: chunks) = encodeChunk c ++ encodeChunks chunks := by
      rw [encodeChunks, List.flatMap_cons, List.append_assoc]
      rfl
    rw [hsplit] at h
    by_cases hwhole : encodeChunk c <+: w
    · obtain ⟨y, rfl⟩ := hwhole
      have hy : y ++ v = encodeChunks chunks := by
        rw [List.append_assoc] at h
        exact List.append_cancel_left h
      have hylen : y.length < fuel := by
        have hpos : 0 < (encodeChunk c).length := by
          simp only [encodeChunk, List.length_append, crlf, List.length_cons]
          omega
        rw [List.length_append] at hfuel
        omega
      have hstep := chunks_encodeChunk haccepts hc hclen (skipCRLF_encodeChunks hy) fuel ht
      have hrest := ih (t := { t with data := t.data ++ c })
        (fun x hx => hchunks x (List.mem_cons_of_mem _ hx)) hy hylen ht
      rw [hstep]
      split
      · rename_i hv
        rw [if_pos hv] at hrest
        obtain ⟨done, left, w', rfl, hw', heq⟩ := hrest
        refine ⟨c :: done, left, w', rfl, hw', ?_⟩
        rw [heq, List.flatten_cons, ← List.append_assoc]
      · rename_i hv
        rw [if_neg hv] at hrest
        rw [hrest, List.flatten_cons, ← List.append_assoc]
    · -- The first chunk is cut, so nothing ends here.
      have hcut : w <+: encodeChunk c :=
        (List.prefix_or_prefix_of_prefix ⟨v, h⟩ (List.prefix_append _ _)).resolve_right hwhole
      have hne : w ≠ encodeChunk c := fun heq => hwhole (heq ▸ List.prefix_refl _)
      have hv : 2 < v.length := by
        have hlen := congrArg List.length h
        have hlast : (encodeChunk []).length = 5 := by decide
        have hmore : 5 ≤ (encodeChunks chunks).length := by
          rw [encodeChunks, List.length_append, hlast]
          omega
        have hle := hcut.length_le
        rw [List.length_append, List.length_append] at hlen
        omega
      rw [if_pos hv]
      refine ⟨[], c :: chunks, w, rfl, h.trans hsplit.symm, ?_⟩
      rw [chunks_cut hc hclen hcut hne fuel t, List.flatten_nil, List.append_nil]

end Chunks

/-! ## Progress -/

/-- The framing of a payload, and the bytes of it on the wire. -/
def Payload.framing : Payload → Announced
  | plain body _ => if body.length = 0 then .none else .length body.length
  | chunked _ => .chunked

def Payload.wire : Payload → Bytes
  | plain body _ => body
  | chunked chunks => encodeChunks chunks

/-- Payloads whose lengths fit the reader's numbers, with no empty chunk before the end. -/
def Payload.Fits : Payload → Prop
  | plain body _ => body.length < 2 ^ 63
  | chunked chunks => ∀ c ∈ chunks, c ≠ [] ∧ c.length < 2 ^ 63 - 16

/-- Where a transfer stands when `v` is still to come. -/
def Progress (v : Bytes) (t : Transfer) : Payload → Prop
  | .plain body _ => t.pending = [] ∧ t.regular = true ∧ t.data ++ v = body ∧
    (v = [] → t.status = .complete) ∧ (v ≠ [] → t.status = .receiving)
  | .chunked chunks => t.regular = true ∧
    if 2 < v.length then
      t.status = .receiving ∧
        ∃ done left, chunks = done ++ left ∧ t.data = done.flatten ∧
          t.pending ++ v = encodeChunks left
    else t.status = .complete ∧ t.data = chunks.flatten

theorem progress_start {payload : Payload} (h : payload.framing ≠ .none) :
    Progress payload.wire Transfer.start payload := by
  cases payload with
  | plain body contentType =>
    have hbody : body ≠ [] := fun hnil => h (by rw [hnil]; rfl)
    exact ⟨rfl, rfl, rfl, fun hnil => absurd hnil hbody, fun _ => rfl⟩
  | chunked chunks =>
    have hlong : 2 < (encodeChunks chunks).length := by
      have hlast : (encodeChunk []).length = 5 := by decide
      rw [encodeChunks, List.length_append, hlast]
      omega
    refine ⟨rfl, ?_⟩
    rw [Payload.wire, if_pos hlong]
    exact ⟨rfl, [], chunks, rfl, rfl, rfl⟩

section Step

variable {accepts : Bytes → Bytes → Bool} (haccepts : ∀ file data, accepts file data = true)

include haccepts

theorem progress_step_plain {body : Bytes} {d v : Bytes} {t : Transfer} (hd : d ≠ [])
    (hdata : t.data ++ (d ++ v) = body)
    (hstatus : t.status = .receiving) :
    t.upTo accepts body.length d =
      { t with data := t.data ++ d, status := if v = [] then .complete else .receiving } := by
  have hlen : body.length = t.data.length + (d.length + v.length) := by
    rw [← hdata, List.length_append, List.length_append]
  have hmissing : d.length ≤ body.length - t.data.length := by omega
  rw [Transfer.upTo, if_neg hd]
  dsimp only
  rw [List.take_of_length_le hmissing, decide_eq_true hmissing, Bool.and_true, Transfer.deliver,
    haccepts]
  dsimp only
  rw [if_pos rfl, hstatus, if_neg (by decide), List.length_append]
  by_cases hv : v = []
  · rw [if_pos hv, if_pos (by rw [hlen, hv]; exact Nat.le_refl _)]
  · have hpos := List.length_pos_iff.mpr hv
    rw [if_neg hv, if_neg (by omega)]

/-- **More of the payload, cut anywhere, keeps the transfer on its way.** -/
theorem progress_step {payload : Payload} (hfits : payload.Fits) (hframing : payload.framing ≠ .none)
    {d v : Bytes} {t : Transfer} (hstatus : t.status = .receiving)
    (h : Progress (d ++ v) t payload) :
    Progress v (t.step accepts payload.framing d) payload := by
  rw [Transfer.step, if_neg (not_not.mpr hstatus)]
  cases payload with
  | plain body contentType =>
    obtain ⟨hpending, hregular, hdata, hdone, hmore⟩ := h
    have hbody : body.length ≠ 0 := fun hnil => hframing (if_pos hnil)
    have hsame : { t with pending := [] } = t := by rw [← hpending]
    rw [Payload.framing, if_neg hbody, Transfer.body, hsame, hpending, List.nil_append]
    by_cases hd : d = []
    · rw [hd] at hdata hdone hmore ⊢
      rw [Transfer.upTo, if_pos rfl]
      exact ⟨hpending, hregular, hdata, hdone, hmore⟩
    · rw [progress_step_plain haccepts hd hdata hstatus]
      refine ⟨hpending, hregular, ?_, fun hv => if_pos hv, fun hv => if_neg hv⟩
      rw [← hdata, List.append_assoc]
  | chunked chunks =>
    obtain ⟨hregular, h⟩ := h
    have hlong : 2 < (d ++ v).length := by
      by_contra hshort
      rw [if_neg hshort] at h
      exact absurd (h.1.symm.trans hstatus) (by decide)
    rw [if_pos hlong] at h
    obtain ⟨-, done, left, rfl, hdata, hwire⟩ := h
    rw [← List.append_assoc] at hwire
    have hstream := chunks_stream haccepts left (t := { t with pending := [] })
      (fun c hc => hfits c (List.mem_append_right _ hc)) hwire (Nat.lt_succ_self _) hstatus
    rw [Payload.framing, Transfer.body]
    split at hstream
    · rename_i hv
      obtain ⟨done', left', w', rfl, hw', heq⟩ := hstream
      rw [heq]
      refine ⟨hregular, ?_⟩
      rw [if_pos hv]
      refine ⟨hstatus, done ++ done', left', by rw [List.append_assoc], ?_, hw'⟩
      dsimp only
      rw [hdata, List.flatten_append]
    · rename_i hv
      rw [hstream]
      refine ⟨hregular, ?_⟩
      rw [if_neg hv]
      refine ⟨rfl, ?_⟩
      dsimp only
      rw [hdata, List.flatten_append]

end Step

end Oxool.Http
