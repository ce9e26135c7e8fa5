import Oxool.Kit.Invalidations
import Oxool.Kit.Windows

/-!
# Range downloads (`http::server::Session` of `net/HttpRequest.hpp`)

A file is sent to a client that may have asked for a part of it. The header of the answer announces a
length, from the two ends of the range and the size of the file, all of them `int`s; then the file is
read from where `lseek` put it, as much at a time as the socket takes, up to the end of the range.

What is sent is `rest` of the session at the start, however the writes are cut (`run_sent`). So the
question is only whether the length announced is the length of that. A suffix longer than the file has
its start before the file: `lseek` refuses, the whole file is sent, and the suffix is announced. A
range that ends before it starts is announced with a negative length.

The file is not changed while it is sent, and a read is cut short by its end only.
-/

set_option autoImplicit false

namespace Oxool.Http.Server

open Oxool.Kit (stoi toSizeT)
open Oxool.Protocol

def dash : UInt8 := 45

/-! ## The `Range` header -/

inductive StatusCode where
  | ok
  | partialContent
deriving DecidableEq

/-- What `asyncUpload` makes of a `Range` header. -/
structure Range where
  start : Int
  finish : Int
  startIsSuffix : Bool
  statusCode : StatusCode
deriving DecidableEq

/-- The upload of a whole file. -/
def Range.whole : Range := ⟨0, -1, false, .ok⟩

/-- The part of a `Range` header after its unit. -/
def parseBytes (range : Bytes) : Range :=
  let startString := range.takeWhile (· != dash)
  let endString := if dash ∈ range then (range.dropWhile (· != dash)).drop 1 else ascii "-1"
  if startString = [] then
    match stoi endString with
    | .ok start => ⟨start, -1, true, .partialContent⟩
    | .error _ => ⟨0, -1, false, .partialContent⟩
  else
    match stoi startString with
    | .error _ => ⟨0, -1, false, .partialContent⟩
    | .ok start =>
      match stoi endString with
      | .error _ => ⟨start, -1, false, .partialContent⟩
      | .ok last => ⟨start, toInt32 (last + 1), false, .partialContent⟩

def parseRange (rangeHeader : Bytes) : Range :=
  if equalSign ∈ rangeHeader then
    if rangeHeader.takeWhile (· != equalSign) = ascii "bytes" then
      parseBytes ((rangeHeader.dropWhile (· != equalSign)).drop 1)
    else .whole
  else .whole

/-! ## The session -/

/-- A session with a file. `fd` is where the descriptor stands, while it is open; `sent` is the body
so far. -/
structure Session where
  file : Bytes
  mimeType : Bytes
  range : Range
  size : Int
  pos : Int
  fd : Option Nat
  sent : Bytes

namespace Session

variable (s : Session)

def getStart : Int :=
  if s.range.startIsSuffix then toInt32 (s.size - s.range.start) else s.range.start

def getEnd : Int :=
  if s.range.startIsSuffix then s.size
  else if s.range.finish = -1 then s.size
  else if s.size < s.range.finish then s.size
  else s.range.finish

def getSendSize : Int := if s.size < s.getStart then 0 else toInt32 (s.getEnd - s.getStart)

/-- The file is opened; that works for a file that is there. -/
def opened (file mimeType : Bytes) (range : Range) : Session :=
  ⟨file, mimeType, range, toInt32 file.length, -1, some 0, []⟩

/-- The seek to the first byte, which fails before the start of the file. -/
def seek : Session :=
  if s.getStart < 0 then s
  else
    { s with
      pos := s.getStart
      fd := some s.getStart.toNat }

def asyncUpload (file mimeType rangeHeader : Bytes) : Session :=
  (opened file mimeType (parseRange rangeHeader)).seek

/-- The fields of the header that `onConnect` sends. -/
def onConnect : List (Bytes × Bytes) :=
  [(ascii "Content-Length", decimal s.getSendSize),
    (ascii "Content-Type", s.mimeType),
    (ascii "Accept-Ranges", ascii "bytes"),
    (ascii "Content-Range", ascii "bytes " ++ decimal s.getStart ++ ascii "-" ++
      decimal (toInt32 (s.getEnd - 1)) ++ ascii "/" ++ decimal s.size)]

/-- The size of the buffer of `performWrites`. -/
def bufferSize : Nat := 64 * 1024

/-- The session after it sent what it read. -/
def wrote (offset : Nat) (buffer : Bytes) : Session :=
  { s with
    sent := s.sent ++ buffer
    pos := toInt32 (s.pos + buffer.length)
    fd := some (offset + buffer.length) }

/-- The loop of `performWrites`. A read that gives something takes up some of the capacity, so that
the capacity is fuel enough. -/
def writeLoop : Nat → Nat → Session → Session
  | 0, _, s => s
  | fuel + 1, capacity, s =>
    match s.fd with
    | none => s
    | some offset =>
      if capacity = 0 then s
      else
        let size := min bufferSize (min capacity (toSizeT (toInt32 (s.getEnd - s.pos))))
        let buffer := (s.file.drop offset).take size
        if buffer = [] ∨ s.getEnd ≤ s.pos then { s with fd := none }
        else writeLoop fuel (capacity - buffer.length) (s.wrote offset buffer)

def performWrites (s : Session) (capacity : Nat) : Session := writeLoop capacity capacity s

/-- The writes of a connection, each with the capacity the socket had then. -/
def run (s : Session) (capacities : List Nat) : Session := capacities.foldl performWrites s

end Session

/-! ## What is asked -/

/-- The client asked for the last bytes, and for more than there are. -/
def AsksForMore (file rangeHeader : Bytes) : Prop :=
  (parseRange rangeHeader).startIsSuffix = true ∧
    (file.length : Int) < (parseRange rangeHeader).start

/-- What is sent is a part of the file, of the length announced, and the whole file when more than
that was asked for. -/
structure SendsRange (file mimeType rangeHeader : Bytes) : Prop where
  announced : ∃ first last, first ≤ last ∧ last ≤ file.length ∧
    (Session.asyncUpload file mimeType rangeHeader).onConnect.lookup (ascii "Content-Length") =
      some (decimal ((last : Int) - first)) ∧
    (Session.asyncUpload file mimeType rangeHeader).getSendSize = (last : Int) - first ∧
    ∀ capacities, ((Session.asyncUpload file mimeType rangeHeader).run capacities).sent =
      ((file.take last).drop first).take capacities.sum
  whole : AsksForMore file rangeHeader → ∀ capacities, file.length ≤ capacities.sum →
    ((Session.asyncUpload file mimeType rangeHeader).run capacities).sent = file

/-- The condition, on the size of the file and the numbers of the range. A range with two ends starts
behind the file, has no end, or ends where it starts or later. A suffix is not longer than the file,
and not so far below zero that its start is beyond the largest `int`.

The size is an `int`, so a file of 2³¹ bytes or more has another size for the code, which may be
negative; then nothing is sent, and nothing announced but for a suffix of a few bytes. -/
def Range.Served (r : Range) (length : Nat) : Prop :=
  let size := toInt32 length
  if r.startIsSuffix then
    if 0 ≤ size then (r.start ≤ size ∧ size - r.start ≤ intMax) ∨ (size < length ∧ r.start = size + 1)
    else r.start ≤ 0 ∨ size - r.start < -2 ^ 31
  else size < r.start ∨ r.finish = -1 ∨ r.start ≤ r.finish

/-! ## The writes -/

namespace Session

variable {s : Session}

/-- What is still to be sent. -/
def rest (s : Session) : Bytes :=
  match s.fd with
  | none => []
  | some offset => (s.file.drop offset).take (s.getEnd - s.pos).toNat

theorem rest_of_fd {offset : Nat} (hfd : s.fd = some offset) :
    s.rest = (s.file.drop offset).take (s.getEnd - s.pos).toNat := by
  rw [rest, hfd]

/-- The position is not before the one that stands for none, and it and the end are `int`s. -/
structure Positioned (s : Session) : Prop where
  pos : -1 ≤ s.pos ∧ s.pos ≤ intMax
  finish : s.getEnd ≤ intMax

/-- What a read is given room for. -/
theorem bufferSize_eq (h : s.Positioned) (hlt : s.pos < s.getEnd) (capacity : Nat) :
    min bufferSize (min capacity (toSizeT (toInt32 (s.getEnd - s.pos)))) =
      min (min bufferSize capacity) (s.getEnd - s.pos).toNat := by
  obtain ⟨hpos, hfinish⟩ := h
  have hmax : (intMax : Int) = 2 ^ 31 - 1 := rfl
  have hbuffer : bufferSize = 65536 := rfl
  rw [← Nat.min_assoc]
  have hsmall : min bufferSize capacity ≤ bufferSize := Nat.min_le_left _ _
  generalize min bufferSize capacity = room at hsmall ⊢
  by_cases hfits : s.getEnd - s.pos ≤ intMax
  · rw [toInt32_eq ⟨by omega, by omega⟩, toSizeT]
    exact congrArg (min room) (by omega)
  · -- from the first byte of a file to the last one an `int` can count
    rw [Kit.toInt32_of_over (by omega) (by omega), toSizeT, Nat.min_eq_left (by omega), Nat.min_eq_left (by omega)]

/-- One read, where there is something left: what it gives is the start of that. -/
theorem buffer_eq (h : s.Positioned) (hlt : s.pos < s.getEnd) {offset : Nat} (hfd : s.fd = some offset)
    (capacity : Nat) :
    (s.file.drop offset).take
        (min bufferSize (min capacity (toSizeT (toInt32 (s.getEnd - s.pos))))) =
      s.rest.take (min bufferSize capacity) := by
  rw [bufferSize_eq h hlt, rest_of_fd hfd, List.take_take]

/-- Nothing is left where the end is reached, or lies before the start. -/
theorem rest_eq_nil (hle : s.getEnd ≤ s.pos) : s.rest = [] := by
  unfold rest
  cases s.fd with
  | none => rfl
  | some offset =>
    have hzero : (s.getEnd - s.pos).toNat = 0 := by omega
    dsimp only
    rw [hzero, List.take_zero]

/-- The descriptor is closed when nothing is left. -/
theorem close_spec (h : s.Positioned) (hempty : s.rest = []) (capacity : Nat) :
    ({ s with fd := none } : Session).sent = s.sent ++ s.rest.take capacity ∧
      ({ s with fd := none } : Session).rest = s.rest.drop capacity ∧
      ({ s with fd := none } : Session).Positioned := by
  rw [hempty, List.take_nil, List.drop_nil, List.append_nil]
  exact ⟨rfl, rfl, h.pos, h.finish⟩

/-- After some of what is left was sent, the remainder is left. -/
theorem wrote_spec (h : s.Positioned) {offset : Nat} (hfd : s.fd = some offset) {n : Nat}
    (hn : n ≤ s.rest.length) :
    (s.wrote offset (s.rest.take n)).Positioned ∧
      (s.wrote offset (s.rest.take n)).rest = s.rest.drop n := by
  have hmax : (intMax : Int) = 2 ^ 31 - 1 := rfl
  obtain ⟨⟨hlow, hhigh⟩, hfinish⟩ := h
  have hlength : (s.rest.take n).length = n := by rw [List.length_take, Nat.min_eq_left hn]
  have hleft : n ≤ (s.getEnd - s.pos).toNat := by
    rw [rest_of_fd hfd, List.length_take] at hn
    omega
  have hpos : (s.wrote offset (s.rest.take n)).pos = s.pos + n := by
    change toInt32 (s.pos + (s.rest.take n).length) = _
    rw [hlength]
    exact toInt32_eq ⟨by omega, by omega⟩
  have hend : (s.wrote offset (s.rest.take n)).getEnd = s.getEnd := rfl
  have hfd' : (s.wrote offset (s.rest.take n)).fd = some (offset + n) := by
    change some (offset + (s.rest.take n).length) = _
    rw [hlength]
  refine ⟨⟨by rw [hpos]; omega, by rw [hend]; exact hfinish⟩, ?_⟩
  rw [rest_of_fd hfd', hend, hpos]
  change (s.file.drop (offset + n)).take _ = _
  rw [rest_of_fd hfd, List.drop_take, List.drop_drop]
  congr 1
  omega

/-- **The loop** sends as much of what is left as the capacity allows. -/
theorem writeLoop_spec {fuel capacity : Nat} (hfuel : capacity ≤ fuel) (h : s.Positioned) :
    (writeLoop fuel capacity s).sent = s.sent ++ s.rest.take capacity ∧
      (writeLoop fuel capacity s).rest = s.rest.drop capacity ∧
      (writeLoop fuel capacity s).Positioned := by
  induction fuel generalizing capacity s with
  | zero =>
    obtain rfl : capacity = 0 := Nat.le_zero.mp hfuel
    exact ⟨by simp [writeLoop], by simp [writeLoop], h⟩
  | succ fuel ih =>
    rw [writeLoop]
    cases hfd : s.fd with
    | none => exact ⟨by simp [rest, hfd], by simp [rest, hfd], h⟩
    | some offset =>
      dsimp only
      by_cases hcapacity : capacity = 0
      · rw [if_pos hcapacity, hcapacity]
        exact ⟨by simp, by simp, h⟩
      rw [if_neg hcapacity]
      by_cases hlt : s.pos < s.getEnd
      · rw [buffer_eq h hlt hfd]
        have hroom : 0 < min bufferSize capacity := by
          have hsize : bufferSize = 65536 := rfl
          omega
        by_cases hnil : s.rest = []
        · have hclose := close_spec h hnil capacity
          rw [hnil] at hclose ⊢
          rw [List.take_nil, if_pos (.inl rfl)]
          exact hclose
        · -- something is read and sent, and the rest of the capacity goes on from there
          have hne : s.rest.take (min bufferSize capacity) ≠ [] := by
            intro htake
            rcases List.take_eq_nil_iff.mp htake with hzero | hnil'
            · omega
            · exact hnil hnil'
          rw [if_neg (by simp only [hne, false_or]; omega)]
          generalize hn : min (min bufferSize capacity) s.rest.length = n
          have htake : s.rest.take (min bufferSize capacity) = s.rest.take n := by
            rw [← hn, List.take_eq_take_min]
          have hnle : n ≤ s.rest.length := by omega
          have hlength : (s.rest.take n).length = n := by rw [List.length_take, Nat.min_eq_left hnle]
          rw [htake, hlength]
          obtain ⟨hpositioned, hrest⟩ := wrote_spec h hfd hnle
          have hpos := List.length_pos_iff.mpr hnil
          have hless : capacity - n ≤ fuel := by omega
          obtain ⟨hsentrec, hrestrec, hposrec⟩ := ih hless hpositioned
          have hsplit : capacity = n + (capacity - n) := by omega
          refine ⟨?_, ?_, hposrec⟩
          · rw [hsentrec, hrest]
            change s.sent ++ s.rest.take n ++ _ = _
            conv_rhs => rw [hsplit, List.take_add]
            rw [List.append_assoc]
          · rw [hrestrec, hrest, List.drop_drop, ← hsplit]
      · rw [if_pos (.inr (by omega))]
        exact close_spec h (rest_eq_nil (by omega)) capacity

/-- **What is sent**, however the writes are cut. -/
theorem run_sent (h : s.Positioned) (capacities : List Nat) :
    (s.run capacities).sent = s.sent ++ s.rest.take capacities.sum := by
  induction capacities generalizing s with
  | nil => simp [run]
  | cons capacity capacities ih =>
    obtain ⟨hsent, hrest, hpositioned⟩ := writeLoop_spec (Nat.le_refl capacity) h
    change ((s.performWrites capacity).run capacities).sent = _
    rw [performWrites, ih hpositioned, hsent, hrest, List.append_assoc, List.sum_cons, List.take_add]

end Session

/-! ## The numbers of a range -/

theorem stoi_isInt32 {s : Bytes} {n : Int} (h : stoi s = .ok n) : IsInt32 n := by
  unfold stoi at h
  split at h
  · cases h
  · split at h
    · cases h
    · rename_i hnot
      obtain rfl := Except.ok.inj h
      exact not_not.mp (not_or.mp hnot).2

/-- A number without a minus sign is not negative. -/
theorem strtol_nonneg {s : Bytes} {n : Int} {outOfRange : Bool}
    (h : strtol s = some (n, outOfRange)) (hdash : dash ∉ s) : 0 ≤ n := by
  have hsign : (splitSign (s.dropWhile isSpace)).1 = false := by
    unfold splitSign
    split
    · rename_i hminus
      have hmem : dash ∈ s.dropWhile isSpace := hminus ▸ List.mem_cons_self
      exact absurd ((List.dropWhile_suffix _).subset hmem) hdash
    · rfl
    · rfl
  have hvalue : ∀ digits, 0 ≤ signed (splitSign (s.dropWhile isSpace)).1 (digitsValue digits) := by
    intro digits
    rw [hsign]
    exact Int.natCast_nonneg _
  unfold strtol at h
  dsimp only at h
  split at h
  · cases h
  · split at h
    · rename_i hlow
      have hnonneg := hvalue ((splitSign (s.dropWhile isSpace)).2.takeWhile isDigit)
      exact absurd (hlow.trans (by decide)) (not_lt.mpr hnonneg)
    · split at h
      · cases h
        decide
      · cases h
        exact hvalue _

theorem stoi_nonneg {s : Bytes} {n : Int} (h : stoi s = .ok n) (hdash : dash ∉ s) : 0 ≤ n := by
  unfold stoi at h
  split at h
  · cases h
  · rename_i hread
    split at h
    · cases h
    · obtain rfl := Except.ok.inj h
      exact strtol_nonneg hread hdash

/-- What a `Range` header can give. -/
structure Range.IsRead (r : Range) : Prop where
  start : IsInt32 r.start
  finish : IsInt32 r.finish
  nonneg : r.startIsSuffix = false → 0 ≤ r.start

theorem Range.isRead_mk {start finish : Int} (hstart : IsInt32 start) (hfinish : IsInt32 finish)
    (hnonneg : 0 ≤ start) (statusCode : StatusCode) :
    Range.IsRead ⟨start, finish, false, statusCode⟩ :=
  ⟨hstart, hfinish, fun _ => hnonneg⟩

theorem parseBytes_isRead (range : Bytes) : (parseBytes range).IsRead := by
  have hzero : IsInt32 0 := by decide
  have hnone : IsInt32 (-1) := by decide
  unfold parseBytes
  dsimp only
  split
  · split
    · rename_i start hread
      exact ⟨stoi_isInt32 hread, hnone, by simp⟩
    · exact Range.isRead_mk hzero hnone (by decide) _
  · split
    · exact Range.isRead_mk hzero hnone (by decide) _
    · rename_i start hread
      have hdash : dash ∉ range.takeWhile (· != dash) := by
        intro hmem
        simpa using List.mem_takeWhile_imp hmem
      have hnonneg := stoi_nonneg hread hdash
      split
      · exact Range.isRead_mk (stoi_isInt32 hread) hnone hnonneg _
      · exact Range.isRead_mk (stoi_isInt32 hread) (isInt32_toInt32 _) hnonneg _

theorem parseRange_isRead (rangeHeader : Bytes) : (parseRange rangeHeader).IsRead := by
  unfold parseRange
  split
  · split
    · exact parseBytes_isRead _
    · exact Range.isRead_mk (by decide) (by decide) (by decide) _
  · exact Range.isRead_mk (by decide) (by decide) (by decide) _

/-! ## The length announced and the length sent -/

namespace Session

variable (file mimeType : Bytes)

/-- A size in an `int`: its own, or off by multiples of 2³². -/
theorem exists_size (length : Nat) :
    ∃ k : Int, 0 ≤ k ∧ toInt32 (length : Int) = length - k * 2 ^ 32 := by
  obtain ⟨k, hk⟩ := Kit.exists_toInt32 (length : Int)
  have hrange := isInt32_toInt32 (length : Int)
  obtain ⟨hmin, hlt⟩ := hrange
  exact ⟨-k, by omega, by omega⟩

/-- The difference of two `int`s is off by 2³², at most. -/
theorem toInt32_sub_cases {a b : Int} (ha : IsInt32 a) (hb : IsInt32 b) :
    toInt32 (a - b) = a - b - 2 ^ 32 ∨ toInt32 (a - b) = a - b ∨ toInt32 (a - b) = a - b + 2 ^ 32 := by
  obtain ⟨m, hm⟩ := Kit.exists_toInt32 (a - b)
  obtain ⟨hmin, hlt⟩ := isInt32_toInt32 (a - b)
  obtain ⟨ha, ha'⟩ := ha
  obtain ⟨hb, hb'⟩ := hb
  have hwrap : m = -1 ∨ m = 0 ∨ m = 1 := by omega
  rcases hwrap with rfl | rfl | rfl <;> omega

/-- What is taken off and taken back is an `int` again, whether or not it wrapped in between. -/
theorem toInt32_sub_toInt32_sub {a b : Int} (hb : IsInt32 b) : toInt32 (a - toInt32 (a - b)) = b := by
  rw [toInt32, toInt32, Int.sub_bmod_bmod, Int.sub_sub_self]
  exact toInt32_eq hb

@[simp] theorem getStart_seek (s : Session) : s.seek.getStart = s.getStart := by
  unfold seek
  split <;> simp only [getStart]

@[simp] theorem getEnd_seek (s : Session) : s.seek.getEnd = s.getEnd := by
  unfold seek
  split <;> simp only [getEnd]

@[simp] theorem size_seek (s : Session) : s.seek.size = s.size := by
  unfold seek
  split <;> simp only

@[simp] theorem sent_seek (s : Session) : s.seek.sent = s.sent := by
  unfold seek
  split <;> simp only

variable (range : Range)

@[simp] theorem file_seek : (opened file mimeType range).seek.file = file := by
  unfold seek
  split <;> rfl

/-- Where the descriptor stands: a start before the file leaves it at the first byte. -/
theorem fd_seek :
    (opened file mimeType range).seek.fd = some (opened file mimeType range).getStart.toNat := by
  unfold seek
  split
  · rename_i hneg
    rw [Int.toNat_of_nonpos (by omega)]
    rfl
  · rfl

theorem pos_seek :
    (opened file mimeType range).seek.pos = max (-1) (opened file mimeType range).getStart := by
  unfold seek
  split
  · rename_i hneg
    rw [max_eq_left (by omega)]
    rfl
  · dsimp only
    rw [max_eq_right (by omega)]

/-- How much lies between the two ends, for a start that may be before the file. -/
theorem length_rest_seek :
    (opened file mimeType range).seek.rest.length =
      min ((opened file mimeType range).getEnd - max (-1) (opened file mimeType range).getStart).toNat
        (file.length - (opened file mimeType range).getStart.toNat) := by
  rw [rest_of_fd (fd_seek file mimeType range), List.length_take, List.length_drop, file_seek,
    getEnd_seek, pos_seek]

/-- What lies between the two ends is a part of the file. -/
theorem rest_seek_eq :
    (opened file mimeType range).seek.rest =
      (file.drop (opened file mimeType range).getStart.toNat).take
        (opened file mimeType range).seek.rest.length := by
  rw [rest_of_fd (fd_seek file mimeType range), file_seek, List.length_take]
  exact List.take_eq_take_min

variable {range}

theorem positioned_seek (h : range.IsRead) :
    (opened file mimeType range).seek.Positioned := by
  have hmax : (intMax : Int) = 2 ^ 31 - 1 := rfl
  have hsize := (isInt32_toInt32 (file.length : Int)).2
  have hstart := h.start.2
  have hfinish := h.finish.2
  constructor
  · have hle : (opened file mimeType range).getStart ≤ intMax := by
      unfold getStart
      split
      · have := (isInt32_toInt32 ((opened file mimeType range).size - range.start)).2
        change toInt32 ((opened file mimeType range).size - range.start) ≤ _
        omega
      · change range.start ≤ _
        omega
    unfold seek
    split
    · exact ⟨Int.le_refl _, by change (-1 : Int) ≤ _; omega⟩
    · exact ⟨by dsimp only; omega, hle⟩
  · rw [getEnd_seek]
    unfold getEnd opened
    dsimp only
    split
    · omega
    · split
      · omega
      · split <;> omega

/-- **The length announced is the length sent** when the range can be served. -/
theorem getSendSize_eq_iff (hread : range.IsRead) :
    (opened file mimeType range).seek.getSendSize = (opened file mimeType range).seek.rest.length ↔
      range.Served file.length := by
  have hmax : (intMax : Int) = 2 ^ 31 - 1 := rfl
  rw [length_rest_seek, getSendSize, size_seek, getStart_seek, getEnd_seek]
  obtain ⟨start, finish, startIsSuffix, statusCode⟩ := range
  obtain ⟨⟨hstart, hstart'⟩, ⟨hfinish, hfinish'⟩, hnonneg⟩ := hread
  obtain ⟨k, hk, hsize⟩ := exists_size file.length
  obtain ⟨hlow, hhigh⟩ := isInt32_toInt32 (file.length : Int)
  unfold getStart getEnd opened Range.Served
  dsimp only at *
  generalize toInt32 (file.length : Int) = size at *
  cases startIsSuffix with
  | true =>
    simp only [if_true]
    -- the second difference takes back what the first one took off, so that only the first may wrap
    rw [toInt32_sub_toInt32_sub ⟨hstart, hstart'⟩]
    have hfirst := toInt32_sub_cases ⟨hlow, hhigh⟩ ⟨hstart, hstart'⟩
    obtain ⟨hmin, hlt⟩ := isInt32_toInt32 (size - start)
    generalize toInt32 (size - start) = first at *
    clear hfinish hfinish' hnonneg
    by_cases hempty : size < 0
    · -- nothing is sent, as the length that is known is below zero
      have hnone : (size - max (-1) first).toNat = 0 := by omega
      rw [hnone, Nat.zero_min, if_neg (Int.not_le.mpr hempty)]
      clear hk hsize hmax hnone
      rcases hfirst with rfl | rfl | rfl
      · split <;> omega
      · split <;> omega
      · split <;> omega
    rw [if_pos (Int.not_lt.mp hempty)]
    by_cases hbefore : first < 0
    · -- the seek fails, and everything is sent
      rw [if_neg (by omega), max_eq_left (by omega), Int.toNat_of_nonpos (Int.le_of_lt hbefore), Nat.sub_zero]
      rcases hfirst with rfl | rfl | rfl
      · omega
      · omega
      · omega
    · rw [max_eq_right (by omega)]
      rcases hfirst with rfl | rfl | rfl
      · omega
      · split <;> omega
      · split <;> omega
  | false =>
    simp only [Bool.false_eq_true, if_false]
    have hstart0 := hnonneg rfl
    generalize hlast : (if finish = -1 then size else if size < finish then size else finish) = last
    have hcases : (finish = -1 ∧ last = size) ∨ (finish ≠ -1 ∧ last = min size finish) := by
      split at hlast
      · omega
      · split at hlast <;> omega
    rw [max_eq_right (Int.le_trans (by decide) hstart0 : -1 ≤ start)]
    by_cases hbehind : size < start
    · -- nothing is behind the file
      have hnone : (last - start).toNat = 0 := by omega
      rw [if_pos hbehind, hnone, Nat.zero_min]
      exact iff_of_true rfl (.inl hbehind)
    rw [if_neg hbehind]
    have hin : size - start ≤ file.length - start.toNat := by omega
    clear hk hsize
    by_cases hserved : finish = -1 ∨ start ≤ finish
    · have hle : start ≤ last ∧ last ≤ size := by omega
      have hfits : (last - start).toNat ≤ file.length - start.toNat := by omega
      rw [toInt32_eq ⟨by omega, by omega⟩, Nat.min_eq_left hfits, Int.toNat_of_nonneg (by omega)]
      exact iff_of_true rfl (.inr hserved)
    · -- the end lies before the start: nothing is sent, and what is announced is not nothing
      rw [not_or] at hserved
      have hlast' : last = finish := by omega
      have hnone : (last - start).toNat = 0 := by omega
      have hwrap := toInt32_sub_cases (hlast' ▸ ⟨hfinish, hfinish'⟩ : IsInt32 last) ⟨hstart, hstart'⟩
      rw [hnone, Nat.zero_min]
      refine iff_of_false (fun hzero => ?_) (not_or.mpr ⟨hbehind, not_or.mpr hserved⟩)
      rw [hzero] at hwrap
      omega

end Session

/-! ## Announced and sent -/

variable (file mimeType rangeHeader : Bytes)

/-- What a connection sends, in all. -/
theorem sent_asyncUpload (capacities : List Nat) :
    ((Session.asyncUpload file mimeType rangeHeader).run capacities).sent =
      (Session.asyncUpload file mimeType rangeHeader).rest.take capacities.sum := by
  have hpositioned : (Session.asyncUpload file mimeType rangeHeader).Positioned :=
    Session.positioned_seek file mimeType (parseRange_isRead rangeHeader)
  have hnone : (Session.asyncUpload file mimeType rangeHeader).sent = [] := by
    rw [Session.asyncUpload, Session.sent_seek]
    rfl
  rw [Session.run_sent hpositioned, hnone, List.nil_append]

/-- Nothing of that is served: a suffix longer than the file is announced as it was asked for. -/
theorem not_served_of_asksForMore {file rangeHeader : Bytes} (h : AsksForMore file rangeHeader) :
    ¬(parseRange rangeHeader).Served file.length := by
  obtain ⟨hsuffix, hmore⟩ := h
  have hstart := (parseRange_isRead rangeHeader).start.2
  have hsize : toInt32 (file.length : Int) = file.length := toInt32_eq ⟨by omega, by omega⟩
  unfold Range.Served
  rw [hsuffix, hsize]
  simp only [if_true]
  rw [if_pos (by omega)]
  omega

/-- What is announced is sent exactly for the ranges that can be served. -/
theorem sendsRange_iff :
    SendsRange file mimeType rangeHeader ↔ (parseRange rangeHeader).Served file.length := by
  rw [← Session.getSendSize_eq_iff file mimeType (parseRange_isRead rangeHeader)]
  have hsent := sent_asyncUpload file mimeType rangeHeader
  have hrest := Session.rest_seek_eq file mimeType (parseRange rangeHeader)
  have hlength := Session.length_rest_seek file mimeType (parseRange rangeHeader)
  change _ ↔ (Session.asyncUpload file mimeType rangeHeader).getSendSize =
    (Session.asyncUpload file mimeType rangeHeader).rest.length
  constructor
  · intro h
    obtain ⟨first, last, hle, hlast, -, hsize, hpart⟩ := h.announced
    -- one write with room for everything
    have hall := hpart [file.length + (Session.asyncUpload file mimeType rangeHeader).rest.length]
    rw [hsent, List.sum_singleton, List.take_of_length_le (by omega),
      List.take_of_length_le (by simp only [List.length_drop, List.length_take]; omega)] at hall
    rw [hsize, hall, List.length_drop, List.length_take, Nat.min_eq_left hlast]
    omega
  · intro hsize
    generalize hstart :
      (Session.opened file mimeType (parseRange rangeHeader)).getStart.toNat = start at hrest hlength
    change _ = (file.drop start).take (Session.asyncUpload file mimeType rangeHeader).rest.length at hrest
    change (Session.asyncUpload file mimeType rangeHeader).rest.length = _ at hlength
    refine ⟨⟨min start file.length,
      min start file.length + (Session.asyncUpload file mimeType rangeHeader).rest.length, by omega,
      by omega, ?_, by omega, ?_⟩, ?_⟩
    · have hannounced : (((min start file.length +
          (Session.asyncUpload file mimeType rangeHeader).rest.length : Nat) : Int) -
          (min start file.length : Nat)) =
          (Session.asyncUpload file mimeType rangeHeader).getSendSize := by omega
      rw [hannounced]
      rfl
    · intro capacities
      rw [hsent, List.drop_take, Nat.add_sub_cancel_left]
      conv_lhs => rw [Session.asyncUpload, hrest]
      rcases Nat.le_total start file.length with hin | hbehind
      · rw [Nat.min_eq_left hin]
      · rw [Nat.min_eq_right hbehind, List.drop_of_length_le hbehind, List.drop_length]
    · intro hmore
      exact absurd ((Session.getSendSize_eq_iff file mimeType (parseRange_isRead rangeHeader)).mp hsize)
        (not_served_of_asksForMore hmore)

/-- The last five bytes of a file that has three: five are announced, and three sent. -/
theorem not_sendsRange : ¬∀ file mimeType rangeHeader, SendsRange file mimeType rangeHeader := by
  intro h
  obtain ⟨first, last, hle, hlast, -, hsize, -⟩ :=
    (h (ascii "abc") (ascii "text/plain") (ascii "bytes=-5")).announced
  have hfive : (Session.asyncUpload (ascii "abc") (ascii "text/plain")
      (ascii "bytes=-5")).getSendSize = 5 := by decide +kernel
  have hthree : (ascii "abc").length = 3 := by decide +kernel
  omega

end Oxool.Http.Server
