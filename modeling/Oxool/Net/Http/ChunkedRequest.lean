import Mathlib.Data.List.TakeWhile
import Oxool.Net.Http.IncomingRequest

/-!
# Chunked requests, cut anywhere

A chunked request reaches `parseHeader` in pieces, so that the buffer holds a prefix of it each
time. The prefix is to be reported as incomplete until the size line of the last, empty chunk is
there, and from then on the data is to be found.

`parseHeader` does not look for the end of a size line before it believes the number on it, and it
asks for two bytes less than a chunk has where it needs two more. `CutSafe` says at which cuts this
does no harm. The last section is about `compactChunks`, which works for chunks that start below
2 GiB: beyond, the index of a span does not fit the `int` of `operator[]`.
-/

set_option autoImplicit false

namespace Oxool.Http

open Oxool.Net

/-! ## Well-formed requests -/

/-- The line before the data of a chunk: its size in hex, and possibly an extension. -/
structure ChunkHead where
  digits : Bytes
  extension : Bytes
  digits_ne : digits ≠ []
  hex : digits.all isHexDigit = true
  stops : (extension ++ crlf).head?.all (fun b => !isHexDigit b) = true
  oneLine : extension.all (· != lf) = true

namespace ChunkHead

def bytes (h : ChunkHead) : Bytes := h.digits ++ (h.extension ++ crlf)

def size (h : ChunkHead) : Nat := hexValue h.digits

end ChunkHead

/-- A chunk with data. A `size_t` can count the bytes of anything in memory. -/
structure Chunk extends ChunkHead where
  data : Bytes
  size_eq : toChunkHead.size = data.length
  data_ne : data ≠ []
  fits : data.length < 2 ^ 64

namespace Chunk

def bytes (c : Chunk) : Bytes := c.toChunkHead.bytes ++ (c.data ++ crlf)

/-- The cuts inside a chunk that are recognised: inside the size line once the digits come to more
than 2, and inside the data while three bytes or more of it are missing. -/
def CutSafe (c : Chunk) (k : Nat) : Prop :=
  k = 0 ∨ (k < c.toChunkHead.bytes.length ∧ 2 < hexValue (c.digits.take k)) ∨
    (c.toChunkHead.bytes.length ≤ k ∧ k - c.toChunkHead.bytes.length + 2 < c.data.length)

end Chunk

/-- A chunked request: `header` ends with the first blank line, `last` is the size line of the
empty chunk, and `after` is what follows it on the connection. -/
structure ChunkedRequest where
  header : Bytes
  header_ends : search marker header = some (header.length - marker.length)
  chunks : List Chunk
  last : ChunkHead
  last_size : last.size = 0
  after : Bytes

namespace ChunkedRequest

def bytes (r : ChunkedRequest) : Bytes :=
  r.header ++ (r.chunks.flatMap Chunk.bytes ++ (r.last.bytes ++ r.after))

/-- Where the size line of the last chunk ends. -/
def lastEnd (r : ChunkedRequest) : Nat :=
  r.header.length + ((r.chunks.flatMap Chunk.bytes).length + r.last.bytes.length)

def body (r : ChunkedRequest) : Bytes := r.chunks.flatMap Chunk.data

end ChunkedRequest

/-- The cuts that are recognised, by the chunk they fall into. A piece of the last size line is
not. -/
def CutSafe (last : ChunkHead) : List Chunk → Nat → Prop
  | [], k => k = 0 ∨ last.bytes.length ≤ k
  | c :: cs, k => if k < c.bytes.length then c.CutSafe k else CutSafe last cs (k - c.bytes.length)

/-! ## A size line -/

theorem hexFrom_append (n : Nat) (as bs : Bytes) : hexFrom n (as ++ bs) = hexFrom (hexFrom n as) bs :=
  List.foldl_append

theorem hexValue_take_le (k : Nat) (bs : Bytes) : hexValue (bs.take k) ≤ hexValue bs := by
  have h := le_hexFrom (bs.drop k) (hexValue (bs.take k))
  rwa [hexValue, ← hexFrom_append, List.take_append_drop] at h

theorem readSize_append {ds tail : Bytes} {n m : Nat} (hds : ds.all isHexDigit = true)
    (htail : tail.head?.all (fun b => !isHexDigit b) = true) (hm : m = n % 2 ^ 64) :
    readSize m (ds ++ tail) = (hexFrom n ds % 2 ^ 64, tail) := by
  induction ds generalizing n m with
  | nil =>
    subst hm
    cases tail with
    | nil => rfl
    | cons b tail =>
      rw [List.head?_cons, Option.all_some, isHexDigit, Bool.not_eq_true', Option.isSome_eq_false_iff,
        Option.isNone_iff_eq_none] at htail
      rw [List.nil_append, readSize, htail]
      rfl
  | cons b ds ih =>
    rw [List.all_cons, Bool.and_eq_true, isHexDigit, Option.isSome_iff_exists] at hds
    obtain ⟨⟨digit, hdigit⟩, hds⟩ := hds
    rw [List.cons_append, readSize, hdigit]
    dsimp only
    rw [ih hds (n := n * 16 + digit) (by omega), hexFrom, hexFrom, List.foldl_cons, hdigit]
    rfl

theorem not_isSpace_of_isHexDigit {b : UInt8} (h : isHexDigit b = true) : isSpace b = false := by
  revert b
  apply forall_byte
  decide +kernel

/-- **The scan over a piece of a size line** reads the digits that are there. -/
theorem readSizeLine_append {ds tail : Bytes} (hne : ds ≠ []) (hds : ds.all isHexDigit = true)
    (htail : tail.head?.all (fun b => !isHexDigit b) = true) :
    readSizeLine (ds ++ tail) = (hexValue ds % 2 ^ 64, (tail.dropWhile (· != lf)).drop 1) := by
  have hspace : (ds ++ tail).dropWhile isSpace = ds ++ tail := by
    obtain ⟨d, ds, rfl⟩ := List.exists_cons_of_ne_nil hne
    rw [List.all_cons, Bool.and_eq_true] at hds
    rw [List.cons_append, List.dropWhile_cons, not_isSpace_of_isHexDigit hds.1]
    rfl
  rw [readSizeLine, hspace, readSize_append hds htail (n := 0) (m := 0) rfl]
  rfl

namespace ChunkHead

variable (h : ChunkHead)

theorem length_bytes : h.bytes.length = h.digits.length + (h.extension.length + 2) := by
  simp [bytes, crlf]

theorem bytes_ne : h.bytes ≠ [] := by
  simp [bytes, crlf]

theorem extension_dropWhile (t : Bytes) :
    ((h.extension ++ crlf ++ t).dropWhile (· != lf)).drop 1 = t := by
  have hext : ∀ b ∈ h.extension, (b != lf) = true := List.all_eq_true.mp h.oneLine
  rw [List.append_assoc, List.dropWhile_append_of_pos hext]
  rfl

theorem stops_append (t : Bytes) :
    (h.extension ++ crlf ++ t).head?.all (fun b => !isHexDigit b) = true := by
  have hne : h.extension ++ crlf ≠ [] := by simp [crlf]
  obtain ⟨b, bs, hb⟩ := List.exists_cons_of_ne_nil hne
  have hstop := h.stops
  rw [hb] at hstop ⊢
  exact hstop

/-- The whole line. -/
theorem readSizeLine_bytes (t : Bytes) : readSizeLine (h.bytes ++ t) = (h.size % 2 ^ 64, t) := by
  rw [bytes, List.append_assoc, readSizeLine_append h.digits_ne h.hex (h.stops_append t),
    h.extension_dropWhile, size]

/-- A proper piece of the line: nothing comes after it, and the size is that of the digits that are
there. -/
theorem readSizeLine_take {k : Nat} (hk : 0 < k) (hlt : k < h.bytes.length) :
    readSizeLine (h.bytes.take k) = (hexValue (h.digits.take k) % 2 ^ 64, []) := by
  have hne : h.digits.take k ≠ [] := by
    intro hnil
    rcases List.take_eq_nil_iff.mp hnil with h0 | h0
    · omega
    · exact h.digits_ne h0
  have hhex : (h.digits.take k).all isHexDigit = true := by
    rw [List.all_eq_true]
    exact fun b hb => List.all_eq_true.mp h.hex b (List.mem_of_mem_take hb)
  have hstop : ((h.extension ++ crlf).take (k - h.digits.length)).head?.all
      (fun b => !isHexDigit b) = true := by
    cases hn : k - h.digits.length with
    | zero => rfl
    | succ n =>
      have hstops := h.stops
      rw [List.head?_take]
      simpa using hstops
  have hline : ((h.extension ++ crlf).take (k - h.digits.length)).dropWhile (· != lf) = [] := by
    rw [List.dropWhile_eq_nil_iff]
    intro b hb
    -- only the very last byte of the line is an LF, and the piece stops before it
    have hpiece : (h.extension ++ crlf).take (k - h.digits.length) =
        (h.extension ++ [cr]).take (k - h.digits.length) := by
      have hsplit : h.extension ++ crlf = h.extension ++ [cr] ++ [lf] := by simp [crlf]
      rw [length_bytes] at hlt
      rw [hsplit, List.take_append_of_le_length]
      rw [List.length_append, List.length_singleton]
      omega
    rw [hpiece] at hb
    rcases List.mem_append.mp (List.mem_of_mem_take hb) with hb | hb
    · exact List.all_eq_true.mp h.oneLine b hb
    · rw [List.mem_singleton.mp hb]
      rfl
  rw [bytes, List.take_append, readSizeLine_append hne hhex hstop, hline]
  rfl

end ChunkHead

/-! ## The loop over the chunks -/

/-- `parseHeader` returned false. -/
def Parsed.Incomplete : Parsed → Prop
  | .incomplete _ => True
  | _ => False

theorem parseChunks_nil (size fuel : Nat) (map : MessageMap) :
    parseChunks size fuel [] map = .incomplete map := by
  cases fuel with
  | zero => rfl
  | succ fuel => rw [parseChunks, if_pos rfl]

namespace Chunk

variable (c : Chunk) {size fuel : Nat} {map : MessageMap}

theorem size_mod : c.toChunkHead.size % 2 ^ 64 = c.data.length := by
  rw [c.size_eq, Nat.mod_eq_of_lt c.fits]

theorem data_pos : 0 < c.data.length := List.length_pos_iff.mpr c.data_ne

theorem length_bytes : c.bytes.length = c.toChunkHead.bytes.length + (c.data.length + 2) := by
  simp [bytes, crlf]

theorem bytes_ne : c.bytes ≠ [] := by
  simp [bytes, crlf]

/-- **A whole chunk** is one round of the loop. -/
theorem parseChunks_bytes (t : Bytes) :
    parseChunks size (fuel + 1) (c.bytes ++ t) map = parseChunks size fuel t
      { map with spans := map.spans ++ [(size - (c.data ++ (crlf ++ t)).length, c.data.length)] } := by
  have hne : c.bytes ++ t ≠ [] := by simp [c.bytes_ne]
  have hsplit : c.bytes ++ t = c.toChunkHead.bytes ++ (c.data ++ (crlf ++ t)) := by
    simp only [bytes, List.append_assoc]
  have hpos := c.data_pos
  have hcr : (c.data ++ (crlf ++ t))[c.data.length]? = some cr := by
    rw [List.getElem?_append_right (Nat.le_refl _), Nat.sub_self]
    rfl
  have hlf : (c.data ++ (crlf ++ t))[c.data.length + 1]? = some lf := by
    rw [List.getElem?_append_right (Nat.le_add_right _ 1), Nat.add_sub_cancel_left]
    rfl
  have hrest : (c.data ++ (crlf ++ t)).drop (c.data.length + 2) = t := by
    rw [List.drop_length_add_append]
    rfl
  rw [parseChunks, if_neg hne, hsplit, ChunkHead.readSizeLine_bytes, size_mod]
  dsimp only
  rw [if_neg (by omega), if_neg (by rw [List.length_append]; omega), hcr]
  dsimp only
  rw [if_neg (by simp), hlf]
  dsimp only
  rw [if_neg (by simp), hrest]

/-- A piece of the size line: the loop goes wrong for the small numbers, since it takes the end of
the input for the end of the line. -/
theorem parseChunks_take_head {k : Nat} (hk : 0 < k) (hlt : k < c.toChunkHead.bytes.length) :
    (parseChunks size (fuel + 1) (c.toChunkHead.bytes.take k) map).Incomplete ↔
      2 < hexValue (c.digits.take k) := by
  have hne : c.toChunkHead.bytes.take k ≠ [] := by
    rw [ne_eq, List.take_eq_nil_iff]
    rintro (h | h)
    · omega
    · exact c.toChunkHead.bytes_ne h
  have hmod : hexValue (c.digits.take k) % 2 ^ 64 = hexValue (c.digits.take k) := by
    have hle := hexValue_take_le k c.digits
    have heq : hexValue c.digits = c.data.length := c.size_eq
    have hfits := c.fits
    exact Nat.mod_eq_of_lt (by omega)
  rw [parseChunks, if_neg hne, ChunkHead.readSizeLine_take _ hk hlt, hmod]
  dsimp only
  by_cases h0 : hexValue (c.digits.take k) = 0
  · rw [if_pos h0, h0]
    simp [Parsed.Incomplete]
  · rw [if_neg h0]
    by_cases h2 : hexValue (c.digits.take k) > ([] : Bytes).length + 2
    · rw [if_pos h2]
      exact iff_of_true trivial h2
    · rw [if_neg h2]
      exact iff_of_false id h2

/-- A piece of the data: the loop goes wrong when no more than two bytes of the data are missing,
and also inside the CRLF after it. -/
theorem parseChunks_take_data {k : Nat} (hlt : k < c.data.length + 2) :
    (parseChunks size (fuel + 1) (c.toChunkHead.bytes ++ (c.data ++ crlf).take k) map).Incomplete ↔
      k + 2 < c.data.length := by
  have hne : c.toChunkHead.bytes ++ (c.data ++ crlf).take k ≠ [] := by
    simp [c.toChunkHead.bytes_ne]
  have hlen : ((c.data ++ crlf).take k).length = k := by
    rw [List.length_take, List.length_append]
    exact Nat.min_eq_left (Nat.le_of_lt hlt)
  have hpos := c.data_pos
  rw [parseChunks, if_neg hne, ChunkHead.readSizeLine_bytes, size_mod]
  dsimp only
  rw [if_neg (by omega), hlen]
  by_cases h2 : c.data.length > k + 2
  · rw [if_pos h2]
    exact iff_of_true trivial h2
  · rw [if_neg h2]
    refine iff_of_false ?_ h2
    by_cases hcr : k ≤ c.data.length
    · rw [List.getElem?_eq_none (by omega)]
      exact id
    · -- only the LF is missing
      obtain rfl : k = c.data.length + 1 := by omega
      have hpiece : (c.data ++ crlf).take (c.data.length + 1) = c.data ++ [cr] := by
        rw [List.take_append]
        simp [crlf]
      rw [hpiece, List.getElem?_append_right (Nat.le_refl _), Nat.sub_self]
      simp [Parsed.Incomplete]

/-- **A piece of a chunk.** -/
theorem parseChunks_take {k : Nat} (hlt : k < c.bytes.length) (hfuel : k ≤ fuel) :
    (parseChunks size fuel (c.bytes.take k) map).Incomplete ↔ c.CutSafe k := by
  rw [length_bytes] at hlt
  rcases Nat.eq_zero_or_pos k with rfl | hk
  · rw [List.take_zero, parseChunks_nil]
    exact iff_of_true trivial (Or.inl rfl)
  · obtain ⟨fuel, rfl⟩ : ∃ n, fuel = n + 1 := ⟨fuel - 1, by omega⟩
    rcases Nat.lt_or_ge k c.toChunkHead.bytes.length with hhead | hhead
    · rw [bytes, List.take_append_of_le_length (Nat.le_of_lt hhead),
        c.parseChunks_take_head hk hhead, CutSafe]
      constructor
      · intro h2
        exact Or.inr (Or.inl ⟨hhead, h2⟩)
      · rintro (h | ⟨-, h2⟩ | ⟨h, -⟩)
        · omega
        · exact h2
        · omega
    · rw [bytes, List.take_append, List.take_of_length_le hhead,
        c.parseChunks_take_data (by omega), CutSafe]
      constructor
      · intro h2
        exact Or.inr (Or.inr ⟨hhead, h2⟩)
      · rintro (h | ⟨h, -⟩ | ⟨-, h2⟩)
        · omega
        · omega
        · exact h2

end Chunk

/-- Where the data of some chunks stands, when the first of them starts at `off`. -/
def spansFrom : Nat → List Chunk → List (Nat × Nat)
  | _, [] => []
  | off, c :: cs =>
    (off + c.toChunkHead.bytes.length, c.data.length) :: spansFrom (off + c.bytes.length) cs

section Loop

variable {last : ChunkHead} {size fuel : Nat}

/-- **Up to the last size line**, the loop is right exactly at the safe cuts. -/
theorem parseChunks_take {after : Bytes} (hlast : last.size = 0) (cs : List Chunk) {k : Nat}
    {map : MessageMap} (hk : k < (cs.flatMap Chunk.bytes).length + last.bytes.length)
    (hfuel : k ≤ fuel) :
    (parseChunks size fuel ((cs.flatMap Chunk.bytes ++ (last.bytes ++ after)).take k) map).Incomplete ↔
      CutSafe last cs k := by
  induction cs generalizing k fuel map with
  | nil =>
    rw [List.flatMap_nil, List.length_nil, Nat.zero_add] at hk
    rw [List.flatMap_nil, List.nil_append, List.take_append_of_le_length (Nat.le_of_lt hk), CutSafe]
    rcases Nat.eq_zero_or_pos k with rfl | hpos
    · rw [List.take_zero, parseChunks_nil]
      exact iff_of_true trivial (Or.inl rfl)
    · -- the digits that are there come to 0, whatever is missing
      have hzero : hexValue (last.digits.take k) = 0 := by
        have hle := hexValue_take_le k last.digits
        rw [← ChunkHead.size, hlast] at hle
        omega
      have hne : last.bytes.take k ≠ [] := by
        rw [ne_eq, List.take_eq_nil_iff]
        rintro (h | h)
        · omega
        · exact last.bytes_ne h
      obtain ⟨fuel, rfl⟩ : ∃ n, fuel = n + 1 := ⟨fuel - 1, by omega⟩
      rw [parseChunks, if_neg hne, last.readSizeLine_take hpos hk, hzero]
      refine iff_of_false id ?_
      rintro (h | h)
      · omega
      · omega
  | cons c cs ih =>
    rw [List.flatMap_cons, List.length_append] at hk
    rw [List.flatMap_cons, List.append_assoc, CutSafe]
    rcases Nat.lt_or_ge k c.bytes.length with hlt | hge
    · rw [if_pos hlt, List.take_append_of_le_length (Nat.le_of_lt hlt),
        c.parseChunks_take hlt hfuel]
    · have hpos := c.length_bytes
      obtain ⟨fuel, rfl⟩ : ∃ n, fuel = n + 1 := ⟨fuel - 1, by omega⟩
      rw [if_neg (Nat.not_lt.mpr hge), List.take_append, List.take_of_length_le hge,
        c.parseChunks_bytes]
      exact ih (by omega) (by omega)

/-- **With the last size line there**, the loop finds the data of every chunk. -/
theorem parseChunks_whole (hlast : last.size = 0) (cs : List Chunk) {t : Bytes} {off : Nat}
    {map : MessageMap} (hsize : size = off + (cs.flatMap Chunk.bytes ++ (last.bytes ++ t)).length)
    (hfuel : (cs.flatMap Chunk.bytes ++ (last.bytes ++ t)).length ≤ fuel) :
    parseChunks size fuel (cs.flatMap Chunk.bytes ++ (last.bytes ++ t)) map =
      .complete { map with messageSize := size - t.length, spans := map.spans ++ spansFrom off cs } := by
  induction cs generalizing off fuel map with
  | nil =>
    have hne : last.bytes ++ t ≠ [] := by simp [last.bytes_ne]
    have hlen := List.length_pos_iff.mpr hne
    rw [List.flatMap_nil, List.nil_append] at hfuel ⊢
    obtain ⟨fuel, rfl⟩ : ∃ n, fuel = n + 1 := ⟨fuel - 1, by omega⟩
    rw [parseChunks, if_neg hne, last.readSizeLine_bytes, hlast, spansFrom, List.append_nil]
    rfl
  | cons c cs ih =>
    have hpos := c.length_bytes
    have hlen : (c.data ++ (crlf ++ (cs.flatMap Chunk.bytes ++ (last.bytes ++ t)))).length =
        c.data.length + (2 + (cs.flatMap Chunk.bytes ++ (last.bytes ++ t)).length) := by
      rw [List.length_append, List.length_append]
      rfl
    rw [List.flatMap_cons, List.append_assoc, List.length_append] at hsize hfuel
    obtain ⟨fuel, rfl⟩ : ∃ n, fuel = n + 1 := ⟨fuel - 1, by omega⟩
    have hsize' : size = off + c.bytes.length +
        (cs.flatMap Chunk.bytes ++ (last.bytes ++ t)).length := by omega
    rw [List.flatMap_cons, List.append_assoc, c.parseChunks_bytes, ih hsize' (by omega), hlen, spansFrom,
      List.append_assoc]
    have hoff : size - (c.data.length + (2 + (cs.flatMap Chunk.bytes ++ (last.bytes ++ t)).length)) =
        off + c.toChunkHead.bytes.length := by omega
    rw [hoff]
    rfl

end Loop

end Oxool.Http
