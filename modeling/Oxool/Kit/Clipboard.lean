import Oxool.Lib.InputStream
import Oxool.Net.Http.ChunkedRequest
import Oxool.Proxy.Server

/-!
# Clipboard streams (`kit/ChildSession.cpp`, `common/Clipboard.hpp`)

The kit sends a clipboard as a list of mime types, lengths in hex and contents, and the server reads it
back from a C++ stream. The reader goes by the stream's flags, so that two things have to be seen: what
`getClipboard` builds is read back entry by entry (`readLoop_output`), and on any other bytes the loop
comes to an end with mime types and contents in step (`readLoop_total`).

A length that is too large for a string throws where it is allocated, with the same data read so far as
where the stream is too short for it; `readLoop` has one case for both.
-/

set_option autoImplicit false

namespace Oxool.Kit

open Oxool.Http Oxool.Proxy

/-- An entry of LibreOffice's clipboard. The mime type is a C string, the content a buffer. -/
structure ClipboardEntry where
  mimeType : Bytes
  content : Bytes
  isCString : 0 ∉ mimeType
  fitsMemory : content.length < 2 ^ 63

/-! ## The kit's end -/

/-- `vectorAppendHex` is `hexBytes` after the output. -/
def appendEntry (output : Bytes) (entry : ClipboardEntry) : Bytes :=
  output ++ entry.mimeType ++ [lf] ++ hexBytes entry.content.length ++ [lf] ++ entry.content ++ [lf]

def clipboardOutput (entries : List ClipboardEntry) : Bytes :=
  entries.foldl appendEntry (ascii "clipboardcontent: content\n")

inductive ClipboardFrame
  | text (message : Bytes)
  | binary (message : Bytes)
deriving DecidableEq

/-- `ChildSession::getClipboard`, with LibreOffice's answer. -/
def getClipboard (success : Bool) (entries : List ClipboardEntry) : ClipboardFrame × Bool :=
  if success = false ∨ entries = [] then (.text (ascii "clipboardcontent: error"), false)
  else (.binary (clipboardOutput entries), true)

/-! ## The server's end -/

structure ClipboardData where
  mimeTypes : List Bytes
  content : List Bytes
deriving DecidableEq

def ClipboardData.push (data : ClipboardData) (mime content : Bytes) : ClipboardData :=
  ⟨data.mimeTypes ++ [mime], data.content ++ [content]⟩

/-- How `ClipboardData::read` ends, and the data it leaves. -/
inductive ClipboardRead
  | returned (data : ClipboardData)
  | threw (data : ClipboardData)
deriving DecidableEq

def ClipboardRead.data : ClipboardRead → ClipboardData
  | .returned data => data
  | .threw data => data

/-- The loop of `ClipboardData::read`. -/
def readLoop : Nat → InputStream UInt8 → ClipboardData → Option ClipboardRead
  | 0, _, _ => none
  | fuel + 1, s, data =>
    if s.eof then some (.returned data)
    else
      let (mime, s) := s.getline lf
      let (hexLen, s) := s.getline lf
      if mime ≠ [] ∧ hexLen ≠ [] ∧ s.fail = false then
        let len := toUInt64 (strtoll hexLen)
        let (content, s) := s.read len
        if s.fail then some (.threw data)
        else
          let (_, s) := s.getline lf
          readLoop fuel s (data.push mime content)
      else readLoop fuel s data

/-- `ClipboardData::read` on a stream of some bytes, with enough rounds for all of them. -/
def ClipboardData.read (data : ClipboardData) (input : Bytes) : Option ClipboardRead :=
  readLoop (input.length + 2) (.ofList input) data

/-! ## What is built -/

/-- An entry as it stands in the stream. -/
def entryBytes (entry : ClipboardEntry) : Bytes :=
  entry.mimeType ++ lf :: (hexBytes entry.content.length ++ lf :: (entry.content ++ [lf]))

theorem appendEntry_eq (output : Bytes) (entry : ClipboardEntry) :
    appendEntry output entry = output ++ entryBytes entry := by
  simp only [appendEntry, entryBytes, List.append_assoc, List.cons_append, List.nil_append]

theorem clipboardOutput_eq (entries : List ClipboardEntry) :
    clipboardOutput entries = ascii "clipboardcontent: content" ++ lf :: entries.flatMap entryBytes := by
  have hfold : ∀ output : Bytes, entries.foldl appendEntry output = output ++ entries.flatMap entryBytes := by
    induction entries with
    | nil => intro output; rw [List.foldl_nil, List.flatMap_nil, List.append_nil]
    | cons entry entries ih =>
      intro output
      rw [List.foldl_cons, ih, appendEntry_eq, List.flatMap_cons, List.append_assoc]
  have hheader : ascii "clipboardcontent: content\n" = ascii "clipboardcontent: content" ++ [lf] := by decide
  rw [clipboardOutput, hfold, hheader, List.append_assoc, List.singleton_append]

/-- **A length is read as it was written**, also without the mark for hex. -/
theorem strtoll_hexBytes {n : Nat} (hn : n < 2 ^ 63) : strtoll (hexBytes n) = n := by
  obtain ⟨d, ds, hds⟩ := List.exists_cons_of_ne_nil (hexBytes_ne_nil n)
  have hhex : ∀ b ∈ d :: ds, isHexDigit b = true := by
    intro b hb
    rw [← hds] at hb
    exact isHexDigit_of_mem_hexBytes hb
  have hd : isHexDigit d = true := hhex d List.mem_cons_self
  have hspace : (d :: ds).dropWhile isSpace = d :: ds := by
    apply List.dropWhile_cons_of_neg
    rw [not_isSpace_of_isHexDigit hd]
    exact Bool.false_ne_true
  have hsign : splitSign (d :: ds) = (false, d :: ds) := by
    rw [splitSign]
    · rintro s heq
      rw [(List.cons.inj heq).1] at hd
      exact absurd hd (by decide)
    · rintro s heq
      rw [(List.cons.inj heq).1] at hd
      exact absurd hd (by decide)
  have hmark : dropHexMark (d :: ds) = d :: ds := by
    rw [dropHexMark]
    · rintro e rest heq
      have hx : isHexDigit 120 = true := hhex 120 (by rw [heq]; simp)
      exact absurd hx (by decide)
    · rintro e rest heq
      have hx : isHexDigit 88 = true := hhex 88 (by rw [heq]; simp)
      exact absurd hx (by decide)
  apply strtoll_of_digits hn (zero_notMem_hexBytes n)
  · rw [hds, hspace]
  · rw [hds, hsign]
  · rw [hds, hmark]

/-! ## What is built is read back -/

/-- The mime type the reader needs: a line that is not empty. -/
def ClipboardEntry.IsLine (entry : ClipboardEntry) : Prop := entry.mimeType ≠ [] ∧ lf ∉ entry.mimeType

theorem readLoop_entry {entry : ClipboardEntry} (h : entry.IsLine) (fuel : Nat) (rest : Bytes)
    (data : ClipboardData) :
    readLoop (fuel + 1) (.ofList (entryBytes entry ++ rest)) data =
      readLoop fuel (.ofList rest) (data.push entry.mimeType entry.content) := by
  have hbytes : entryBytes entry ++ rest = entry.mimeType ++ lf :: (hexBytes entry.content.length ++
      lf :: (entry.content ++ ([] ++ lf :: rest))) := by
    simp only [entryBytes, List.append_assoc, List.cons_append, List.nil_append]
  have hhex : lf ∉ hexBytes entry.content.length := by
    intro hmem
    exact absurd (isHexDigit_of_mem_hexBytes hmem) (by decide)
  have hlen : toUInt64 (strtoll (hexBytes entry.content.length)) = entry.content.length := by
    rw [strtoll_hexBytes entry.fitsMemory, toUInt64_of_lt entry.fitsMemory]
  rw [hbytes, readLoop, if_neg (by exact Bool.false_ne_true), InputStream.getline_line h.2]
  dsimp only
  rw [InputStream.getline_line hhex]
  dsimp only
  rw [if_pos ⟨h.1, hexBytes_ne_nil _, rfl⟩, hlen, InputStream.read_block]
  dsimp only
  rw [if_neg (by exact Bool.false_ne_true), InputStream.getline_line List.not_mem_nil]

theorem readLoop_nil (fuel : Nat) (data : ClipboardData) :
    readLoop (fuel + 2) (.ofList []) data = some (.returned data) := rfl

/-- The run: each entry takes a round, the end of the stream two. -/
theorem readLoop_output {entries : List ClipboardEntry} (h : ∀ entry ∈ entries, entry.IsLine)
    {fuel : Nat} (hfuel : entries.length + 2 ≤ fuel) (data : ClipboardData) :
    readLoop fuel (.ofList (entries.flatMap entryBytes)) data = some (.returned
      ⟨data.mimeTypes ++ entries.map (·.mimeType), data.content ++ entries.map (·.content)⟩) := by
  induction entries generalizing fuel data with
  | nil =>
    obtain ⟨fuel, rfl⟩ := Nat.exists_eq_add_of_le' hfuel
    rw [List.flatMap_nil, List.map_nil, List.map_nil, List.append_nil, List.append_nil]
    exact readLoop_nil fuel data
  | cons entry entries ih =>
    obtain ⟨fuel, rfl⟩ := Nat.exists_eq_add_of_le' (Nat.le_of_add_left_le hfuel)
    rw [List.length_cons] at hfuel
    rw [List.flatMap_cons, readLoop_entry (h entry List.mem_cons_self),
      ih (fun e he => h e (List.mem_cons_of_mem _ he)) (by omega)]
    simp only [ClipboardData.push, List.append_assoc, List.singleton_append, List.map_cons]

theorem length_entries_le (entries : List ClipboardEntry) :
    entries.length ≤ (entries.flatMap entryBytes).length := by
  induction entries with
  | nil => exact Nat.le_refl _
  | cons entry entries ih =>
    have hpos : 1 ≤ (entryBytes entry).length := by
      rw [entryBytes, List.length_append, List.length_cons]
      omega
    rw [List.flatMap_cons, List.length_append, List.length_cons]
    omega

/-! ## Any bytes -/

/-- The data in `later` came to `data` from `input`: a mime type with each content, each content a part
of the input. -/
def ReadFrom (input : Bytes) (data later : ClipboardData) : Prop :=
  ∃ mimes contents : List Bytes, mimes.length = contents.length ∧ (∀ c ∈ contents, c <:+: input) ∧
    later = ⟨data.mimeTypes ++ mimes, data.content ++ contents⟩

theorem ReadFrom.refl (input : Bytes) (data : ClipboardData) : ReadFrom input data data := by
  refine ⟨[], [], rfl, ?_, ?_⟩
  · intro c hc
    exact absurd hc List.not_mem_nil
  · rw [List.append_nil, List.append_nil]

theorem ReadFrom.push {input mime content : Bytes} {data later : ClipboardData} (hcontent : content <:+: input)
    (h : ReadFrom input (data.push mime content) later) : ReadFrom input data later := by
  obtain ⟨mimes, contents, hlength, hinfix, hlater⟩ := h
  refine ⟨mime :: mimes, content :: contents, ?_, ?_, ?_⟩
  · rw [List.length_cons, List.length_cons, hlength]
  · intro c hc
    rcases List.mem_cons.mp hc with rfl | hc
    · exact hcontent
    · exact hinfix c hc
  · rw [hlater]
    simp only [ClipboardData.push, List.append_assoc, List.singleton_append]

/-- **The loop ends**: each round takes a line off the stream. What it adds was in the stream. -/
theorem readLoop_total {input : Bytes} {fuel : Nat} {s : InputStream UInt8} (hs : s.Sound)
    (hfuel : s.left < fuel) (hrest : s.rest <:+: input) (data : ClipboardData) :
    ∃ r, readLoop fuel s data = some r ∧ ReadFrom input data r.data := by
  induction fuel generalizing s data with
  | zero => exact absurd hfuel (Nat.not_lt_zero _)
  | succ fuel ih =>
    rw [readLoop]
    split
    · exact ⟨_, rfl, .refl input data⟩
    · next heof =>
      have hmime := InputStream.left_getline_lt hs (Bool.eq_false_iff.mpr heof) lf
      have hhex := InputStream.left_getline_le lf (s.getline lf).2
      have hsound := (hs.getline lf).getline lf
      have hsuffix := ((s.getline lf).2.getline_suffix lf).trans (s.getline_suffix lf)
      dsimp only
      split
      · split
        · exact ⟨_, rfl, .refl input data⟩
        · generalize toUInt64 (strtoll ((s.getline lf).2.getline lf).1) = len
          have hblock := InputStream.left_read_le len ((s.getline lf).2.getline lf).2
          have hline := InputStream.left_getline_le lf (((s.getline lf).2.getline lf).2.read len).2
          have hleft : (((((s.getline lf).2.getline lf).2.read len).2.getline lf).2).left < fuel := by omega
          have hparts := hsuffix.isInfix.trans hrest
          have hcontent := (InputStream.read_infix len ((s.getline lf).2.getline lf).2).trans hparts
          have hlater := ((InputStream.getline_suffix lf _).trans (InputStream.read_suffix len _)).isInfix.trans
            hparts
          obtain ⟨r, hr, hfrom⟩ := ih ((hsound.read len).getline lf) hleft hlater _
          exact ⟨r, hr, hfrom.push hcontent⟩
      · exact ih hsound (by omega) (hsuffix.isInfix.trans hrest) data

/-- What the kit builds after its header line is read back as the list of entries it was built from. On
any bytes the reader ends, and what it has then, whether it returns or throws, are mime types and contents
in step, each content a part of the input. -/
theorem read_getClipboard :
    (∀ entries : List ClipboardEntry, (∀ entry ∈ entries, entry.IsLine) →
      (entries ≠ [] → getClipboard true entries = (.binary (clipboardOutput entries), true)) ∧
      ∃ stream, splitLine (clipboardOutput entries) = some (ascii "clipboardcontent: content", stream) ∧
        ClipboardData.read ⟨[], []⟩ stream =
          some (.returned ⟨entries.map (·.mimeType), entries.map (·.content)⟩)) ∧
    ∀ (input : Bytes) (data : ClipboardData), ∃ r, data.read input = some r ∧ ReadFrom input data r.data := by
  refine ⟨?_, ?_⟩
  · intro entries hentries
    refine ⟨?_, entries.flatMap entryBytes, ?_, ?_⟩
    · intro hne
      rw [getClipboard, if_neg (by simp [hne])]
    · rw [clipboardOutput_eq]
      exact splitLine_append (by decide) _
    · have hlength := length_entries_le entries
      exact readLoop_output hentries (by omega) ⟨[], []⟩
  · intro input data
    apply readLoop_total (InputStream.sound_ofList input)
    · exact Nat.lt_succ_self _
    · exact List.infix_refl _

/-- Two entries, one of them empty, with a NUL and newlines in the other. -/
def textAndImage : List ClipboardEntry :=
  [⟨ascii "text/plain;charset=utf-8", [], by decide, by decide⟩, ⟨ascii "image/png", [137, 10, 0, 10], by decide, by decide⟩]

theorem isLine_textAndImage : ∀ entry ∈ textAndImage, entry.IsLine := by
  intro entry hentry
  rcases List.mem_cons.mp hentry with rfl | hentry
  · exact ⟨by decide, by decide⟩
  · rw [List.mem_singleton.mp hentry]
    exact ⟨by decide, by decide⟩

theorem read_getClipboard_textAndImage :
    (textAndImage ≠ [] → getClipboard true textAndImage = (.binary (clipboardOutput textAndImage), true)) ∧
      ∃ stream, splitLine (clipboardOutput textAndImage) = some (ascii "clipboardcontent: content", stream) ∧
        ClipboardData.read ⟨[], []⟩ stream =
          some (.returned ⟨textAndImage.map (·.mimeType), textAndImage.map (·.content)⟩) :=
  read_getClipboard.1 textAndImage isLine_textAndImage

end Oxool.Kit
