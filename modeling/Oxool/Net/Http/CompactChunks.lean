import Oxool.Net.Http.ChunkedRequest

/-!
# The chunks of a request, moved together

`compactChunks` moves the header and the data of each chunk to the front of the input buffer, one
after the other, and erases what is left between them and the end of the message. A span never
starts before the place it is moved to, so that a move does not touch the spans still to come.

The results about `parseHeader` and `compactChunks` together are at the end.
-/

set_option autoImplicit false

namespace Oxool.Http

open Oxool.Net

/-! ## One move -/

section Move

variable {b b' : Buffer} {start len dest : Nat} {data : Bytes}

theorem intIndex_of_lt (h : start < 2 ^ 31) : intIndex start = start :=
  Int.bmod_eq_of_le (by omega) (by omega)

theorem length_of_bytesAt (h : bytesAt b start len = some data) : data.length = len := by
  simp only [bytesAt] at h
  split at h
  · next hle =>
    obtain rfl := Option.some.inj h
    rw [List.length_take, List.length_drop]
    omega
  · exact absurd h (by simp)

/-- Below 2 GiB the index is what it says. -/
theorem bytesAt_of_lt (hstart : start < 2 ^ 31) (hle : start + len ≤ b.size) :
    bytesAt b start len = some ((b.bytes.drop start).take len) := by
  have hnat : ((b.offset : Int) + start).toNat = b.offset + start := by omega
  have hoff := b.offset_le
  rw [Buffer.size] at hle
  rw [bytesAt, intIndex_of_lt hstart, hnat, if_pos ⟨by omega, by omega⟩, Buffer.bytes, List.drop_drop]

theorem writeAt_of_le (hle : dest + data.length ≤ b.size) :
    ∃ b', writeAt b dest data = some b' ∧ b'.bytes = overwrite b.bytes dest data := by
  have hoff := b.offset_le
  rw [Buffer.size] at hle
  rw [writeAt, dif_pos (by omega)]
  exact ⟨_, rfl, overwrite_drop hoff⟩

theorem le_of_writeAt (h : writeAt b dest data = some b') : dest + data.length ≤ b.size := by
  rw [writeAt] at h
  split at h
  · rw [Buffer.size]
    omega
  · exact absurd h (by simp)

theorem bytes_writeAt (h : writeAt b dest data = some b') :
    b'.bytes = overwrite b.bytes dest data := by
  obtain ⟨b'', h'', hbytes⟩ := writeAt_of_le (le_of_writeAt h)
  obtain rfl : b' = b'' := Option.some.inj (h.symm.trans h'')
  exact hbytes

theorem size_writeAt (h : writeAt b dest data = some b') : b'.size = b.size := by
  rw [← Buffer.length_bytes, bytes_writeAt h, length_overwrite, Buffer.length_bytes]
  rw [Buffer.length_bytes]
  exact le_of_writeAt h

/-- Two writes at the front, one right after the other. -/
theorem writeAt_writeAt {front more : Bytes} (h : writeAt b 0 front = some b') :
    writeAt b' front.length more = writeAt b 0 (front ++ more) := by
  have hle := le_of_writeAt h
  rw [writeAt] at h
  split at h
  · next hfit =>
    obtain rfl := Option.some.inj h
    have hlen := length_overwrite hfit
    have hoff : b.offset + 0 ≤ b.buffer.length := by omega
    have heq : overwrite (overwrite b.buffer (b.offset + 0) front) (b.offset + front.length) more =
        overwrite b.buffer (b.offset + 0) (front ++ more) := overwrite_overwrite hoff
    simp only [Nat.add_zero] at heq hlen
    simp only [writeAt, Nat.add_zero, heq, hlen, List.length_append, Nat.add_assoc]
  · exact absurd h (by simp)

theorem take_bytes_writeAt (h : writeAt b dest data = some b') :
    b'.bytes.take dest = b.bytes.take dest := by
  have hle := le_of_writeAt h
  have hlen : dest ≤ (b.bytes.take dest).length := by
    rw [List.length_take, Buffer.length_bytes]
    omega
  rw [bytes_writeAt h, overwrite, List.append_assoc, List.take_append_of_le_length hlen,
    List.take_take, Nat.min_self]

end Move

/-- The moves leave alone what was moved before them. -/
theorem take_bytes_moveSpans {spans : List (Nat × Nat)} {b b' : Buffer} {dest newEnd : Nat}
    (h : moveSpans b dest spans = some (b', newEnd)) :
    b'.bytes.take dest = b.bytes.take dest ∧ newEnd = dest + (spans.map Prod.snd).sum ∧
      b'.size = b.size := by
  induction spans generalizing b dest with
  | nil =>
    obtain ⟨rfl, rfl⟩ := Prod.mk.inj (Option.some.inj h)
    exact ⟨rfl, rfl, rfl⟩
  | cons span spans ih =>
    obtain ⟨start, len⟩ := span
    rw [moveSpans] at h
    obtain ⟨data, hdata, h⟩ := Option.bind_eq_some_iff.mp h
    obtain ⟨b₁, hb₁, h⟩ := Option.bind_eq_some_iff.mp h
    obtain ⟨htake, hend, hsize⟩ := ih h
    refine ⟨?_, ?_, hsize.trans (size_writeAt hb₁)⟩
    · have hle : dest = min dest (dest + len) := by omega
      rw [hle, ← List.take_take, htake, List.take_take, ← hle]
      exact take_bytes_writeAt hb₁
    · rw [hend, List.map_cons, List.sum_cons]
      omega

/-! ## All the moves -/

/-- The data of the chunks is found through the `int` its offset becomes. This is so for a chunk
that starts below 2 GiB. Beyond, the bytes at the place the index points to, with `front` already
moved to the beginning of the buffer, would have to be the same by chance. -/
def Found (b : Buffer) : Bytes → Nat → List Chunk → Prop
  | _, _, [] => True
  | front, off, c :: cs =>
    (off + c.toChunkHead.bytes.length < 2 ^ 31 ∨
      ((writeAt b 0 front).bind fun b =>
        bytesAt b (off + c.toChunkHead.bytes.length) c.data.length) = some c.data) ∧
    Found b (front ++ c.data) (off + c.bytes.length) cs

theorem sum_spansFrom (off : Nat) (cs : List Chunk) :
    ((spansFrom off cs).map Prod.snd).sum = (cs.flatMap Chunk.data).length := by
  induction cs generalizing off with
  | nil => rfl
  | cons c cs ih =>
    rw [spansFrom, List.map_cons, List.sum_cons, ih, List.flatMap_cons, List.length_append]

/-- A chunk below 2 GiB is read where it stands, behind what was moved already. -/
theorem bytesAt_chunk {b b₁ : Buffer} {front pre rest : Bytes} {c : Chunk}
    (hb : b.bytes = pre ++ (c.bytes ++ rest)) (hfront : front.length ≤ pre.length)
    (hb₁ : writeAt b 0 front = some b₁)
    (hsmall : pre.length + c.toChunkHead.bytes.length < 2 ^ 31) :
    bytesAt b₁ (pre.length + c.toChunkHead.bytes.length) c.data.length = some c.data := by
  have hlen := c.length_bytes
  have hsize : b.size = pre.length + (c.bytes.length + rest.length) := by
    rw [← Buffer.length_bytes, hb, List.length_append, List.length_append]
  -- what stands behind `front` was not touched
  have hdrop : b₁.bytes.drop (pre.length + c.toChunkHead.bytes.length) = c.data ++ (crlf ++ rest) := by
    have hfar : pre.length + c.toChunkHead.bytes.length =
        (0 + front.length) + (pre.length + c.toChunkHead.bytes.length - front.length) := by omega
    rw [bytes_writeAt hb₁, hfar, ← List.drop_drop, drop_overwrite (Nat.zero_le _), List.drop_drop,
      ← hfar, hb, List.drop_length_add_append, Chunk.bytes, List.append_assoc, List.drop_left,
      List.append_assoc]
  rw [bytesAt_of_lt hsmall (by rw [size_writeAt hb₁]; omega), hdrop, List.take_left]

/-- **The moves gather the data** of the chunks behind `front`. -/
theorem moveSpans_of_found {b b₁ : Buffer} {front pre rest : Bytes} (cs : List Chunk)
    (hb : b.bytes = pre ++ (cs.flatMap Chunk.bytes ++ rest)) (hfront : front.length ≤ pre.length)
    (hb₁ : writeAt b 0 front = some b₁) (hfound : Found b front pre.length cs) :
    ∃ b₂, moveSpans b₁ front.length (spansFrom pre.length cs) =
        some (b₂, (front ++ cs.flatMap Chunk.data).length) ∧
      writeAt b 0 (front ++ cs.flatMap Chunk.data) = some b₂ := by
  induction cs generalizing front pre b₁ with
  | nil => exact ⟨b₁, by rw [spansFrom, moveSpans, List.flatMap_nil, List.append_nil],
      by rw [List.flatMap_nil, List.append_nil, hb₁]⟩
  | cons c cs ih =>
    have hlen := c.length_bytes
    rw [List.flatMap_cons, List.append_assoc] at hb
    obtain ⟨hc, hfound⟩ := hfound
    have hdata : bytesAt b₁ (pre.length + c.toChunkHead.bytes.length) c.data.length = some c.data := by
      rcases hc with hsmall | hsame
      · exact bytesAt_chunk hb hfront hb₁ hsmall
      · rwa [hb₁, Option.bind_some] at hsame
    obtain ⟨b', hb', -⟩ : ∃ b', writeAt b 0 (front ++ c.data) = some b' ∧ _ := by
      refine writeAt_of_le ?_
      rw [← Buffer.length_bytes, hb, List.length_append, List.length_append, List.length_append]
      omega
    have hwrite : writeAt b₁ front.length c.data = some b' := (writeAt_writeAt hb₁).trans hb'
    have hpre : (pre ++ c.bytes).length = pre.length + c.bytes.length := List.length_append
    have hle : (front ++ c.data).length ≤ (pre ++ c.bytes).length := by
      rw [List.length_append, hpre]
      omega
    obtain ⟨b₂, hmove, hb₂⟩ := ih (by rw [List.append_assoc, hb]) hle hb' (by rw [hpre]; exact hfound)
    refine ⟨b₂, ?_, ?_⟩
    · rw [spansFrom, moveSpans, hdata, Option.bind_some, hwrite, Option.bind_some,
        List.flatMap_cons, ← List.append_assoc, ← hmove, hpre, List.length_append]
    · rw [List.flatMap_cons, ← List.append_assoc, hb₂]

/-- Where the moves come to the data of the chunks, the data was found. -/
theorem found_of_moveSpans {b b₁ b₂ : Buffer} {front : Bytes} {off newEnd : Nat} (cs : List Chunk)
    (hb₁ : writeAt b 0 front = some b₁)
    (hmove : moveSpans b₁ front.length (spansFrom off cs) = some (b₂, newEnd))
    (hpre : front ++ cs.flatMap Chunk.data <+: b₂.bytes) : Found b front off cs := by
  induction cs generalizing front off b₁ with
  | nil => trivial
  | cons c cs ih =>
    rw [spansFrom, moveSpans] at hmove
    obtain ⟨data, hdata, hwrite⟩ := Option.bind_eq_some_iff.mp hmove
    obtain ⟨b', hb', hrest⟩ := Option.bind_eq_some_iff.mp hwrite
    have hlen : data.length = c.data.length := length_of_bytesAt hdata
    rw [writeAt_writeAt hb₁] at hb'
    -- whatever was moved stays, so it has to be the data already
    have hfront : b₂.bytes.take (front.length + c.data.length) = front ++ data := by
      have htake := (take_bytes_moveSpans hrest).1
      have hall : (overwrite b.bytes 0 (front ++ data)).take (0 + (front ++ data).length) = _ :=
        take_overwrite (Nat.zero_le _)
      rw [List.take_zero, List.nil_append, Nat.zero_add, List.length_append, hlen] at hall
      rw [htake, bytes_writeAt hb', hall]
    obtain rfl : data = c.data := by
      obtain ⟨t, ht⟩ := hpre
      rw [← ht, List.flatMap_cons, ← List.append_assoc, List.append_assoc (front ++ c.data),
        ← List.length_append, List.take_left] at hfront
      exact (List.append_cancel_left hfront).symm
    rw [List.flatMap_cons, ← List.append_assoc] at hpre
    rw [← List.length_append] at hrest
    refine ⟨Or.inr ?_, ih hb' hrest hpre⟩
    rw [hb₁, Option.bind_some, hdata]

/-! ## A prefix of a request -/

namespace ChunkedRequest

variable (r : ChunkedRequest)

/-- **What a server may expect of the two functions**, with the first `k` bytes of the request in
the buffer. Until the size line of the last chunk is there, `parseHeader` returns false, without a
read outside the buffer. From then on it returns true, and `compactChunks` leaves the header, the
body and what came after that line. -/
structure Decoded (poco : Bytes → Option HTTPRequest) (s : StreamSocket) (k : Nat) : Prop where
  incomplete : k < r.lastEnd → (s.parseHeader poco).2.Incomplete
  complete : r.lastEnd ≤ k → ∃ map b map', (s.parseHeader poco).2 = .complete map ∧
    compactChunks s.inBuffer map = some (true, b, map') ∧
    b.bytes = r.header ++ r.body ++ (r.bytes.take k).drop r.lastEnd ∧
    map'.messageSize = r.header.length + r.body.length

/-- The cuts of the whole request at which `parseHeader` is right: inside the header too. -/
def CutSafe (k : Nat) : Prop :=
  k < r.header.length ∨ Http.CutSafe r.last r.chunks (k - r.header.length)

theorem header_length : (r.header.length - marker.length) + marker.length = r.header.length := by
  have hle := search_le r.header_ends
  omega

theorem lastEnd_of_length {t : Bytes} :
    (r.header ++ (r.chunks.flatMap Chunk.bytes ++ (r.last.bytes ++ t))).length = r.lastEnd + t.length := by
  simp only [lastEnd, List.length_append]
  omega

theorem body_le : r.body.length ≤ (r.chunks.flatMap Chunk.bytes).length := by
  rw [body]
  induction r.chunks with
  | nil => exact Nat.le_refl _
  | cons c cs ih =>
    have hlen := c.length_bytes
    rw [List.flatMap_cons, List.flatMap_cons, List.length_append, List.length_append]
    omega

/-- **`compactChunks` on a complete request** comes to the header and the body exactly if the data
of the chunks is found. -/
theorem compactChunks_iff {b : Buffer} {map : MessageMap} {t : Bytes}
    (hb : b.bytes = r.header ++ (r.chunks.flatMap Chunk.bytes ++ (r.last.bytes ++ t)))
    (hspans : map.spans = (0, r.header.length) :: spansFrom r.header.length r.chunks)
    (hsize : map.messageSize = r.lastEnd) :
    (∃ b' map', compactChunks b map = some (true, b', map') ∧ b'.bytes = r.header ++ r.body ++ t ∧
        map'.messageSize = r.header.length + r.body.length) ↔
      Found b r.header r.header.length r.chunks := by
  have hlen : b.size = r.lastEnd + t.length := by
    rw [← Buffer.length_bytes, hb, lastEnd_of_length]
  have hle := r.body_le
  have hheader : bytesAt b 0 r.header.length = some r.header := by
    rw [bytesAt_of_lt (by decide) (by rw [hlen, lastEnd]; omega), hb, List.drop_zero, List.take_left]
  obtain ⟨b₁, hb₁, -⟩ : ∃ b₁, writeAt b 0 r.header = some b₁ ∧ _ :=
    writeAt_of_le (by rw [hlen, lastEnd]; omega)
  have hmoves : moveSpans b 0 map.spans =
      moveSpans b₁ r.header.length (spansFrom r.header.length r.chunks) := by
    rw [hspans, moveSpans, hheader, Option.bind_some, hb₁, Option.bind_some, Nat.zero_add]
  have hne : map.spans ≠ [] := by simp [hspans]
  have hdrop : b.bytes.drop r.lastEnd = t := by
    have hwhole : b.bytes =
        (r.header ++ (r.chunks.flatMap Chunk.bytes ++ r.last.bytes)) ++ t := by
      rw [hb]
      simp only [List.append_assoc]
    rw [hwhole, lastEnd, ← List.length_append, ← List.length_append, List.drop_left]
  rw [compactChunks, if_neg hne, hmoves, hsize]
  constructor
  · rintro ⟨b', map', hcompact, hbytes, -⟩
    obtain ⟨⟨b₂, newEnd⟩, hb₂, herase⟩ := Option.bind_eq_some_iff.mp hcompact
    obtain ⟨-, hend, hsize₂⟩ := take_bytes_moveSpans hb₂
    rw [sum_spansFrom, ← body] at hend
    dsimp only at herase
    rw [size_writeAt hb₁, hlen] at hsize₂
    rw [hsize₂, if_pos ⟨by rw [hend, lastEnd]; omega, by omega⟩] at herase
    obtain rfl : b₂.erase newEnd r.lastEnd = b' :=
      (Prod.mk.inj (Prod.mk.inj (Option.some.inj herase)).2).1
    have hpre : r.header ++ r.body = b₂.bytes.take newEnd := by
      have hfit : (b₂.bytes.take newEnd).length = (r.header ++ r.body).length := by
        rw [List.length_take, Buffer.length_bytes, hsize₂, hend, List.length_append, lastEnd]
        omega
      rw [Buffer.bytes_erase] at hbytes
      exact (List.append_inj_left hbytes hfit).symm
    refine found_of_moveSpans r.chunks hb₁ hb₂ ?_
    rw [← body, hpre]
    exact List.take_prefix _ _
  · intro hfound
    obtain ⟨b₂, hb₂, hwrite⟩ := moveSpans_of_found r.chunks hb (Nat.le_refl _) hb₁ hfound
    rw [← body] at hb₂ hwrite
    have hfit : (r.header ++ r.body).length ≤ r.lastEnd := by
      rw [List.length_append, lastEnd]
      omega
    rw [hb₂, Option.bind_some]
    dsimp only
    rw [if_pos ⟨hfit, by rw [size_writeAt hwrite, hlen]; omega⟩]
    refine ⟨_, _, rfl, ?_, ?_⟩
    · have htake : (overwrite b.bytes 0 (r.header ++ r.body)).take (0 + (r.header ++ r.body).length) = _ :=
        take_overwrite (Nat.zero_le _)
      have hfar : r.lastEnd = (0 + (r.header ++ r.body).length) +
          (r.lastEnd - (r.header ++ r.body).length) := by omega
      rw [List.take_zero, List.nil_append, Nat.zero_add] at htake
      rw [Buffer.bytes_erase, bytes_writeAt hwrite, htake]
      conv_lhs => rw [hfar, ← List.drop_drop, drop_overwrite (Nat.zero_le _), List.drop_drop, ← hfar,
        hdrop]
    · rw [← List.length_append]
      dsimp only
      omega

/-- **Inside the header** nothing is decided. -/
theorem parseHeader_of_lt {poco : Bytes → Option HTTPRequest} {s : StreamSocket} {k : Nat}
    (hs : s.inBuffer.bytes = r.bytes.take k) (hk : k < r.header.length) :
    s.parseHeader poco = (s, .incomplete .empty) := by
  have hnone : search marker s.inBuffer.bytes = none := by
    rw [hs, bytes, List.take_append_of_le_length (Nat.le_of_lt hk)]
    exact search_take r.header_ends (by rw [r.header_length]; exact hk)
  rw [StreamSocket.parseHeader]
  dsimp only
  rw [hnone]

/-- The map with which the loop over the chunks starts. -/
def startMap : MessageMap where
  headerSize := r.header.length
  messageSize := (((r.header.length : Int) + unknownContentLength) % 2 ^ 64).toNat
  spans := [(0, r.header.length)]

/-- The map with which it ends. -/
def endMap : MessageMap :=
  { r.startMap with
    messageSize := r.lastEnd
    spans := (0, r.header.length) :: spansFrom r.header.length r.chunks }

/-- **Behind the header** the loop over the chunks decides. -/
theorem parseHeader_of_le {poco : Bytes → Option HTTPRequest} {s : StreamSocket} {rest : Bytes}
    (hpoco : ∀ t, ∃ q, poco (r.header ++ t) = some q ∧ q.chunked = true ∧
      q.contentLength = unknownContentLength)
    (hs : s.inBuffer.bytes = r.header ++ rest) :
    (s.parseHeader poco).2 = parseChunks (r.header ++ rest).length (r.header ++ rest).length rest
      r.startMap := by
  obtain ⟨q, hq, hchunked, hlength⟩ := hpoco rest
  rw [StreamSocket.parseHeader]
  dsimp only
  rw [hs, search_append r.header_ends rest]
  dsimp only
  rw [hq]
  dsimp only
  rw [if_neg (fun h => h.1 hlength), if_pos hchunked, r.header_length, List.drop_left, hlength]
  rfl

theorem cutSafe_of_le {last : ChunkHead} (cs : List Chunk) {k : Nat}
    (h : (cs.flatMap Chunk.bytes).length + last.bytes.length ≤ k) : Http.CutSafe last cs k := by
  induction cs generalizing k with
  | nil => exact Or.inr (by simpa using h)
  | cons c cs ih =>
    rw [List.flatMap_cons, List.length_append] at h
    rw [Http.CutSafe, if_neg (by omega)]
    exact ih (by omega)

section Prefix

variable {r} {poco : Bytes → Option HTTPRequest} {s : StreamSocket} {k : Nat}

/-- Before the end of the last size line. -/
theorem incomplete_iff (hpoco : ∀ t, ∃ q, poco (r.header ++ t) = some q ∧ q.chunked = true ∧
      q.contentLength = unknownContentLength)
    (hs : s.inBuffer.bytes = r.bytes.take k) (hk : r.header.length ≤ k) (hlt : k < r.lastEnd) :
    (s.parseHeader poco).2.Incomplete ↔ Http.CutSafe r.last r.chunks (k - r.header.length) := by
  rw [bytes, List.take_append, List.take_of_length_le hk] at hs
  rw [lastEnd] at hlt
  rw [r.parseHeader_of_le hpoco hs]
  refine parseChunks_take r.last_size r.chunks (by omega) ?_
  rw [List.length_append, List.length_take, List.length_append, List.length_append]
  omega

/-- From the end of the last size line on. -/
theorem complete_iff (hpoco : ∀ t, ∃ q, poco (r.header ++ t) = some q ∧ q.chunked = true ∧
      q.contentLength = unknownContentLength)
    (hs : s.inBuffer.bytes = r.bytes.take k) (hge : r.lastEnd ≤ k) :
    (∃ map b map', (s.parseHeader poco).2 = .complete map ∧
        compactChunks s.inBuffer map = some (true, b, map') ∧
        b.bytes = r.header ++ r.body ++ (r.bytes.take k).drop r.lastEnd ∧
        map'.messageSize = r.header.length + r.body.length) ↔
      Found s.inBuffer r.header r.header.length r.chunks := by
  have hsplit : r.bytes.take k = r.header ++ (r.chunks.flatMap Chunk.bytes ++
      (r.last.bytes ++ (r.bytes.take k).drop r.lastEnd)) := by
    have hwhole : r.bytes =
        (r.header ++ (r.chunks.flatMap Chunk.bytes ++ r.last.bytes)) ++ r.after := by
      simp only [bytes, List.append_assoc]
    have hlen : (r.header ++ (r.chunks.flatMap Chunk.bytes ++ r.last.bytes)).length = r.lastEnd := by
      rw [List.length_append, List.length_append, lastEnd]
    have htake : (r.bytes.take k).take r.lastEnd =
        r.header ++ (r.chunks.flatMap Chunk.bytes ++ r.last.bytes) := by
      rw [List.take_take, Nat.min_eq_left hge, hwhole, ← hlen, List.take_left]
    conv_lhs => rw [← List.take_append_drop r.lastEnd (r.bytes.take k), htake]
    simp only [List.append_assoc]
  generalize (r.bytes.take k).drop r.lastEnd = t at *
  rw [hsplit] at hs
  have hparse : (s.parseHeader poco).2 = .complete r.endMap := by
    rw [r.parseHeader_of_le hpoco hs, parseChunks_whole r.last_size r.chunks List.length_append
        (by simp only [List.length_append]; omega),
      r.lastEnd_of_length, Nat.add_sub_cancel]
    rfl
  have hmap : r.endMap.messageSize = r.lastEnd := rfl
  rw [← r.compactChunks_iff hs rfl hmap, hparse]
  constructor
  · rintro ⟨map, b, map', hmap, hcompact⟩
    obtain rfl := Parsed.complete.inj hmap
    exact ⟨b, map', hcompact⟩
  · rintro ⟨b, map', hcompact⟩
    exact ⟨_, b, map', rfl, hcompact⟩

/-- **A chunked request is decoded from a prefix** exactly if the cut is safe and, once the last
size line is there, the data of the chunks is found. -/
theorem decoded_iff (hpoco : ∀ t, ∃ q, poco (r.header ++ t) = some q ∧ q.chunked = true ∧
      q.contentLength = unknownContentLength)
    (hs : s.inBuffer.bytes = r.bytes.take k) :
    r.Decoded poco s k ↔ r.CutSafe k ∧
      (r.lastEnd ≤ k → Found s.inBuffer r.header r.header.length r.chunks) := by
  rcases Nat.lt_or_ge k r.lastEnd with hlt | hge
  · have hnot : ¬ r.lastEnd ≤ k := Nat.not_le.mpr hlt
    rcases Nat.lt_or_ge k r.header.length with hk | hk
    · refine iff_of_true ⟨fun _ => ?_, fun hge => absurd hge hnot⟩
        ⟨Or.inl hk, fun hge => absurd hge hnot⟩
      rw [r.parseHeader_of_lt hs hk]
      trivial
    · have hiff := incomplete_iff hpoco hs hk hlt
      constructor
      · intro hdec
        exact ⟨Or.inr (hiff.mp (hdec.incomplete hlt)), fun hge => absurd hge hnot⟩
      · rintro ⟨hcut | hcut, -⟩
        · omega
        · exact ⟨fun _ => hiff.mpr hcut, fun hge => absurd hge hnot⟩
  · have hiff := complete_iff hpoco hs hge
    have hnot : ¬ k < r.lastEnd := Nat.not_lt.mpr hge
    constructor
    · intro hdec
      refine ⟨Or.inr (cutSafe_of_le r.chunks ?_), fun _ => hiff.mp (hdec.complete hge)⟩
      rw [lastEnd] at hge
      omega
    · rintro ⟨-, hfound⟩
      exact ⟨fun hlt => absurd hlt hnot, fun _ => hiff.mpr (hfound hge)⟩

end Prefix

/-! ### A request with one chunk -/

def sample : ChunkedRequest where
  header := ascii "POST /oxool/convert-to HTTP/1.1" ++ crlf ++ ascii "Transfer-Encoding: chunked" ++ marker
  header_ends := by decide +kernel
  chunks := [{
    digits := ascii "10"
    extension := []
    digits_ne := by decide
    hex := by decide
    stops := by decide
    oneLine := by decide
    data := ascii "0123456789abcdef"
    size_eq := by decide
    data_ne := by decide
    fits := by decide }]
  last := {
    digits := ascii "0"
    extension := []
    digits_ne := by decide
    hex := by decide
    stops := by decide
    oneLine := by decide }
  last_size := by decide
  after := crlf

/-- Poco on headers without a `Content-Length`: only the transfer encoding is of interest. -/
def samplePoco (input : Bytes) : Option HTTPRequest :=
  (search marker input).map fun i =>
    ⟨unknownContentLength, [], (search (ascii "Transfer-Encoding: chunked") (input.take i)).isSome⟩

/-- A socket with the first `k` bytes of it. -/
def sampleSocket (k : Nat) : StreamSocket :=
  ⟨Buffer.empty.insertEnd (sample.bytes.take k), .empty, false⟩

theorem samplePoco_header (t : Bytes) :
    ∃ q, samplePoco (sample.header ++ t) = some q ∧ q.chunked = true ∧
      q.contentLength = unknownContentLength := by
  have hle : sample.header.length - marker.length ≤ sample.header.length := Nat.sub_le _ _
  refine ⟨⟨unknownContentLength, [], true⟩, ?_, rfl, rfl⟩
  rw [samplePoco, search_append sample.header_ends, Option.map_some,
    List.take_append_of_le_length hle]
  decide +kernel

theorem decoded_sample :
    sample.Decoded samplePoco (sampleSocket sample.bytes.length) sample.bytes.length :=
  (decoded_iff samplePoco_header (by rw [sampleSocket, Buffer.bytes_insertEnd]; rfl)).mpr
    ⟨Or.inr (cutSafe_of_le sample.chunks (by decide +kernel)),
      fun _ => ⟨Or.inl (by decide +kernel), trivial⟩⟩

/-- Cut inside the size `10`, which is read as a chunk of one byte that is taken to be there. -/
theorem not_decoded_sample :
    ¬ sample.Decoded samplePoco (sampleSocket (sample.header.length + 1)) (sample.header.length + 1) := by
  intro hdec
  have hparse : ((sampleSocket (sample.header.length + 1)).parseHeader samplePoco).2 = .overrun := by
    decide +kernel
  have hinc := hdec.incomplete (by decide +kernel)
  rw [hparse] at hinc
  exact hinc

end ChunkedRequest

end Oxool.Http
