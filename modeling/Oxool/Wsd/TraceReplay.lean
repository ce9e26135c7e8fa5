import Oxool.Wsd.TraceFile

/-!
# Which traces are read as they were written

Whatever a line holds, a record read from it has a session id without the direction's byte and a
payload that is not empty, and neither has a line break (`extractRecord_shape`). So only what is
`Separable` comes back; and a trace of such records is read line by line (`readLines_trace`), with
times that are the elapsed ones exactly as long as the clock goes forward and the sum fits in 32 bits
(`forall₂_stamped`).

`getNextRecord` has an index for incoming records and one for all others. Asked for events it starts
from the first outgoing record, so it never gives the events (`not_replays_event`).
-/

set_option autoImplicit false

namespace Oxool.Wsd.TraceFile

open Oxool.Http (Bytes ascii lf isDigit)
open Oxool.Protocol

/-! ## Lines -/

theorem linesFrom_line {l : Bytes} (hl : lf ∉ l) (line rest : Bytes) (hne : line ++ l ≠ []) :
    linesFrom line (l ++ lf :: rest) = (line ++ l) :: linesFrom [] rest := by
  induction l generalizing line with
  | nil =>
    have hline : line ≠ [] := by simpa using hne
    rw [List.nil_append, linesFrom, if_pos rfl, if_neg hline, List.append_nil]
  | cons b l ih =>
    have hb : b ≠ lf := fun heq => hl (by simp [heq])
    rw [List.cons_append, linesFrom, if_neg hb,
      ih (fun hmem => hl (List.mem_cons_of_mem _ hmem)) _ (by simp), List.append_assoc]
    rfl

/-- No line has a line break in it. -/
theorem notMem_linesFrom {line s l : Bytes} (hline : lf ∉ line) (h : l ∈ linesFrom line s) :
    lf ∉ l := by
  induction s generalizing line with
  | nil =>
    rw [linesFrom] at h
    split at h
    · simp at h
    · rw [List.mem_singleton.mp h]
      exact hline
  | cons b s ih =>
    rw [linesFrom] at h
    split at h
    · split at h
      · simp at h
      · rcases List.mem_cons.mp h with rfl | h
        · exact hline
        · exact ih (by simp) h
    · rename_i hb
      refine ih ?_ h
      simp only [List.mem_append, List.mem_singleton, not_or]
      exact ⟨hline, Ne.symm hb⟩

/-! ## Fields -/

/-- A field that is written is read. -/
theorem field_append {delimiter : UInt8} {f : Bytes} (hf : delimiter ∉ f) (rest : Bytes) :
    field delimiter (f ++ delimiter :: rest) = some (f, some rest) := by
  have hall : ∀ b ∈ f, (b != delimiter) = true := by
    intro b hb
    rw [bne_iff_ne]
    exact fun heq => hf (heq ▸ hb)
  have hdrop : (f ++ delimiter :: rest).dropWhile (· != delimiter) = delimiter :: rest := by
    rw [List.dropWhile_append_of_pos hall, List.dropWhile_cons_of_neg (by simp)]
  have htake : (f ++ delimiter :: rest).takeWhile (· != delimiter) = f := by
    rw [List.takeWhile_append_of_pos hall, List.takeWhile_cons_of_neg (by simp), List.append_nil]
  rw [field, if_neg (by simp), hdrop, htake]

/-- A field is a part of the line without the delimiter, and so is what follows it. -/
theorem field_eq_some {delimiter : UInt8} {s f rest : Bytes}
    (h : field delimiter s = some (f, some rest)) : s = f ++ delimiter :: rest ∧ delimiter ∉ f := by
  rw [field] at h
  split at h
  · cases h
  · split at h
    · simp at h
    · rename_i b rest' hdrop
      simp only [Option.some.injEq, Prod.mk.injEq] at h
      obtain ⟨rfl, rfl⟩ := h
      have hb : b = delimiter := by
        have := List.head?_dropWhile_not (· != delimiter) s
        rw [hdrop] at this
        simpa using this
      refine ⟨?_, ?_⟩
      · conv_lhs => rw [← List.takeWhile_append_dropWhile (p := (· != delimiter)) (l := s)]
        rw [hdrop, hb]
      · intro hmem
        simpa using List.mem_takeWhile_imp hmem

/-- **What every record that is read is like**, whatever the line. -/
theorem extractRecord_shape {s : Bytes} {lastTime : UInt32} {r : TraceFileRecord}
    (h : (extractRecord s lastTime).1 = some r) (hs : lf ∉ s) :
    (r.dir ∉ r.sessionId ∧ lf ∉ r.sessionId) ∧ r.payload ≠ [] ∧ lf ∉ r.payload := by
  have hrest : ∀ {delimiter : UInt8} {t : UInt32} {s : Bytes}, extractRest delimiter t s = some r →
      lf ∉ s → (r.dir ∉ r.sessionId ∧ lf ∉ r.sessionId) ∧ r.payload ≠ [] ∧ lf ∉ r.payload := by
    intro delimiter t s hextract hs
    simp only [extractRest, Option.bind_eq_bind, Option.bind_eq_some_iff] at hextract
    obtain ⟨⟨pid, rest⟩, hpid, rest', hrest, ⟨sessionId, payload⟩, hsession, payload', hpayload,
      hrec⟩ := hextract
    simp only at hrest hpayload hrec
    subst hrest hpayload
    split at hrec
    · cases hrec
    · rename_i hne
      obtain rfl := Option.some.inj hrec
      obtain ⟨rfl, -⟩ := field_eq_some hpid
      obtain ⟨rfl, hdelim⟩ := field_eq_some hsession
      simp only [List.mem_append, List.mem_cons, not_or] at hs
      exact ⟨⟨hdelim, hs.2.2.1⟩, hne, hs.2.2.2.2⟩
  cases s with
  | nil => simp [extractRecord] at h
  | cons delimiter s =>
    have hs' : lf ∉ s := fun hmem => hs (List.mem_cons_of_mem _ hmem)
    rw [extractRecord] at h
    split at h
    · cases h
    · rename_i time rest hfield
      have hend : ∀ rest', rest = some rest' → lf ∉ rest' := by
        rintro rest' rfl
        obtain ⟨heq, -⟩ := field_eq_some hfield
        rw [heq] at hs'
        simp only [List.mem_append, List.mem_cons, not_or] at hs'
        exact hs'.2.2
      split at h
      · obtain ⟨rest', hrest', hextract⟩ := Option.bind_eq_some_iff.mp h
        exact hrest hextract (hend rest' hrest')
      · obtain ⟨rest', hrest', hextract⟩ := Option.bind_eq_some_iff.mp h
        exact hrest hextract (hend rest' hrest')

theorem readLines_shape {lines : List Bytes} {lastTime : UInt32} (hlines : ∀ l ∈ lines, lf ∉ l)
    {r : TraceFileRecord} (h : r ∈ readLines lastTime lines) :
    (r.dir ∉ r.sessionId ∧ lf ∉ r.sessionId) ∧ r.payload ≠ [] ∧ lf ∉ r.payload := by
  induction lines generalizing lastTime with
  | nil => simp [readLines] at h
  | cons line lines ih =>
    rw [readLines] at h
    rcases List.mem_append.mp h with h | h
    · exact extractRecord_shape (Option.mem_toList.mp h) (hlines line (by simp))
    · exact ih (fun l hl => hlines l (List.mem_cons_of_mem _ hl)) h

/-! ## Times -/

/-- What the reader adds for a time difference. -/
def stamp (delta : Int) : UInt32 := toUnsigned (atol (ascii "+" ++ decimal delta))

theorem splitSign_plus (s : Bytes) : splitSign ((ascii "+" ++ s).dropWhile isSpace) = (false, s) := by
  have hplus : ascii "+" = [43] := by decide
  rw [hplus, List.singleton_append, List.dropWhile_cons_of_neg (by decide)]
  rfl

/-- A difference that is not negative is added. -/
theorem stamp_of_nonneg {delta : Int} (h : 0 ≤ delta) (hlt : delta < 2 ^ 32) :
    stamp delta = UInt32.ofNat delta.toNat := by
  obtain ⟨n, rfl⟩ := Int.eq_ofNat_of_zero_le h
  have hdigits : (ascii (toString n)).takeWhile isDigit = ascii (toString n) := by
    have := @takeWhile_toString n [] (by simp)
    rwa [List.append_nil] at this
  have hread : strtol (ascii "+" ++ decimal n) = some ((n : Int), false) := by
    have hdecimal : decimal n = ascii (toString n) := rfl
    have hsigned : signed false n = n := rfl
    rw [strtol, splitSign_plus, hdecimal]
    dsimp only
    rw [hdigits, digitsValue_toString, if_neg (toString_ne_nil n), hsigned,
      if_neg (by rw [longMin]; omega), if_neg (by rw [longMax]; omega)]
  rw [stamp, atol, hread, toUnsigned, toUInt32]
  simp only [Option.map_some, Option.getD_some, Int.toNat_natCast]
  rw [Int.emod_eq_of_lt (by omega) hlt, Int.toNat_natCast]

/-- A clock that went back is read as one that stood still. -/
theorem stamp_of_neg {delta : Int} (h : delta < 0) : stamp delta = 0 := by
  obtain ⟨n, rfl⟩ := Int.eq_negSucc_of_lt_zero h
  have hread : strtol (ascii "+" ++ decimal (Int.negSucc n)) = none := by
    rw [strtol, splitSign_plus, decimal]
    dsimp only
    rw [List.takeWhile_cons_of_neg (by decide), if_pos rfl]
  rw [stamp, atol, hread]
  rfl

/-- **The times that are read are the elapsed ones** exactly as long as the clock goes forward and
they fit in 32 bits. -/
theorem times_iff {epochStart lastTime : Int} {lastStamp : UInt32}
    (hlast : (lastStamp.toNat : Int) = lastTime - epochStart) (time : Int) :
    ((lastStamp + stamp (time - lastTime)).toNat : Int) = time - epochStart ↔
      lastTime ≤ time ∧ time - epochStart < 2 ^ 32 := by
  have hbound := (lastStamp + stamp (time - lastTime)).toNat_lt
  constructor
  · intro h
    refine ⟨?_, by omega⟩
    by_contra hback
    rw [stamp_of_neg (by omega), UInt32.add_zero] at h
    omega
  · rintro ⟨hforward, hrange⟩
    have hbefore := lastStamp.toNat_lt
    rw [stamp_of_nonneg (by omega) (by omega), UInt32.toNat_add,
      UInt32.toNat_ofNat_of_lt' (by omega : (time - lastTime).toNat < 2 ^ 32),
      Nat.mod_eq_of_lt (by omega)]
    omega

/-! ## Reading a trace of separable records -/

/-- The record that is read for one that was written. -/
def recordOf (timestampUs : UInt32) (w : Written) : TraceFileRecord :=
  ⟨w.direction.char, timestampUs, pidOf w.id, w.sessionId, w.data⟩

/-- The records that are read, with their times. -/
def stamped : Int → UInt32 → List Written → List TraceFileRecord
  | _, _, [] => []
  | lastTime, lastStamp, w :: rest =>
    recordOf (lastStamp + stamp (w.time - lastTime)) w ::
      stamped w.time (lastStamp + stamp (w.time - lastTime)) rest

/-- A direction's byte and a line break are not part of a number. -/
theorem notMem_decimal (n : Int) :
    lf ∉ decimal n ∧ ∀ dir : Direction, dir.char ∉ decimal n := by
  have hdigit : ∀ b : UInt8, isDigit b = true → b ≠ lf ∧ b ≠ 62 ∧ b ≠ 60 ∧ b ≠ 126 :=
    @(Http.forall_byte (by decide +kernel))
  refine ⟨fun h => ?_, fun dir h => ?_⟩
  · rcases mem_decimal h with h | h
    · exact absurd h (by decide)
    · exact (hdigit _ h).1 rfl
  · rcases mem_decimal h with h | h
    · cases dir <;> exact absurd h (by decide)
    · cases dir
      · exact (hdigit _ h).2.1 rfl
      · exact (hdigit _ h).2.2.1 rfl
      · exact (hdigit _ h).2.2.2 rfl

/-- The line that is written, without its line break. -/
def lineOf (lastTime : Int) (w : Written) : Bytes :=
  w.direction.char :: ((ascii "+" ++ decimal (w.time - lastTime)) ++ w.direction.char ::
    (w.id ++ w.direction.char :: (w.sessionId ++ w.direction.char :: w.data)))

theorem writeLocked_eq (lastTime : Int) (w : Written) :
    writeLocked lastTime w = lineOf lastTime w ++ [lf] := by
  simp [writeLocked, lineOf]

theorem extractRecord_lineOf {w : Written} (h : Separable w) (lastTime : Int) (lastStamp : UInt32) :
    extractRecord (lineOf lastTime w) lastStamp =
      (some (recordOf (lastStamp + stamp (w.time - lastTime)) w),
        lastStamp + stamp (w.time - lastTime)) := by
  have htime : w.direction.char ∉ ascii "+" ++ decimal (w.time - lastTime) := by
    intro hmem
    rcases List.mem_append.mp hmem with hmem | hmem
    · cases hdir : w.direction <;> rw [hdir] at hmem <;> exact absurd hmem (by decide)
    · exact (notMem_decimal _).2 _ hmem
  have hid : w.direction.char ∉ w.id := by
    rw [h.id]
    exact (notMem_decimal _).2 _
  have hrest : extractRest w.direction.char (lastStamp + stamp (w.time - lastTime))
      (w.id ++ w.direction.char :: (w.sessionId ++ w.direction.char :: w.data)) =
        some (recordOf (lastStamp + stamp (w.time - lastTime)) w) := by
    simp [extractRest, field_append hid, field_append h.sessionId.1, h.data.1, recordOf]
  rw [lineOf, extractRecord, field_append htime]
  dsimp only
  rw [if_pos (by simp [ascii])]
  simp only [Option.bind_some]
  exact Prod.ext hrest rfl

theorem notMem_lineOf {w : Written} (h : Separable w) (lastTime : Int) :
    lf ∉ lineOf lastTime w := by
  have hdir : lf ≠ w.direction.char := by cases w.direction <;> decide
  have hid : lf ∉ w.id := by
    rw [h.id]
    exact (notMem_decimal _).1
  simp only [lineOf, List.mem_cons, List.mem_append, not_or]
  exact ⟨hdir, ⟨by decide, (notMem_decimal _).1⟩, hdir, hid, hdir, h.sessionId.2, hdir, h.data.2⟩

/-- **A trace of separable records is read line by line.** -/
theorem readLines_trace {ws : List Written} (h : ∀ w ∈ ws, Separable w) (lastTime : Int)
    (lastStamp : UInt32) :
    readLines lastStamp (linesFrom [] (trace lastTime ws)) = stamped lastTime lastStamp ws := by
  induction ws generalizing lastTime lastStamp with
  | nil => rfl
  | cons w ws ih =>
    have hw := h w (by simp)
    rw [trace, writeLocked_eq, List.append_assoc, List.singleton_append,
      linesFrom_line (notMem_lineOf hw lastTime) [] _ (by simp [lineOf]), List.nil_append, readLines,
      extractRecord_lineOf hw, ih fun v hv => h v (List.mem_cons_of_mem _ hv)]
    rfl

theorem pidOf_decimal (n : UInt32) : pidOf (decimal n.toNat) = n := by
  have hread := TileCombined.stringToUInt32_decimal n
  rw [stringToUInt32, stringToInteger] at hread
  rw [pidOf, atol]
  cases hlong : strtol (decimal n.toNat) with
  | none => simp [hlong] at hread
  | some value =>
    obtain ⟨value, outOfRange⟩ := value
    cases outOfRange with
    | true => simp [hlong] at hread
    | false => simpa [hlong, toUnsigned] using hread

theorem forall₂_stamped {epochStart : Int} {ws : List Written} (h : ∀ w ∈ ws, Separable w)
    {lastTime : Int} {lastStamp : UInt32} (hlast : (lastStamp.toNat : Int) = lastTime - epochStart) :
    List.Forall₂ (SameRecord epochStart) ws (stamped lastTime lastStamp ws) ↔
      (lastTime :: ws.map Written.time).IsChain (· ≤ ·) ∧ ∀ w ∈ ws, w.time - epochStart < 2 ^ 32 := by
  induction ws generalizing lastTime lastStamp with
  | nil => simp [stamped]
  | cons w ws ih =>
    have hw := h w (by simp)
    have hsame : SameRecord epochStart w (recordOf (lastStamp + stamp (w.time - lastTime)) w) ↔
        lastTime ≤ w.time ∧ w.time - epochStart < 2 ^ 32 := by
      rw [← times_iff hlast]
      exact ⟨fun hrec => hrec.timestampUs, fun htime => ⟨rfl, htime, hw.id, rfl, rfl⟩⟩
    rw [stamped, List.forall₂_cons, hsame, List.map_cons, List.isChain_cons_cons, List.forall_mem_cons]
    constructor
    · rintro ⟨⟨hforward, hrange⟩, hrest⟩
      have hnext := (times_iff hlast w.time).mpr ⟨hforward, hrange⟩
      obtain ⟨hclock, hranges⟩ := (ih (fun v hv => h v (List.mem_cons_of_mem _ hv)) hnext).mp hrest
      exact ⟨⟨hforward, hclock⟩, hrange, hranges⟩
    · rintro ⟨⟨hforward, hclock⟩, hrange, hranges⟩
      have hnext := (times_iff hlast w.time).mpr ⟨hforward, hrange⟩
      exact ⟨⟨hforward, hrange⟩,
        (ih (fun v hv => h v (List.mem_cons_of_mem _ hv)) hnext).mpr ⟨hclock, hranges⟩⟩

/-- Only what can be taken apart comes back. -/
theorem separable_of_sameRecord {epochStart : Int} {w : Written} {r : TraceFileRecord}
    (h : SameRecord epochStart w r)
    (hshape : (r.dir ∉ r.sessionId ∧ lf ∉ r.sessionId) ∧ r.payload ≠ [] ∧ lf ∉ r.payload) :
    Separable w where
  id := by rw [h.pid, pidOf_decimal]
  sessionId := by rw [← h.dir, ← h.sessionId]; exact hshape.1
  data := by rw [← h.payload]; exact hshape.2

/-! ## The records by direction -/

/-- The first search ends if the index can reach the end, or there is something to find. -/
theorem isSome_advance {records : List TraceFileRecord} {dir : UInt8} :
    (advance records (-1) dir).isSome ↔
      records.length < indexLimit ∨ ∃ rec ∈ records.take indexLimit, rec.dir = dir := by
  have hstart : ((-1 : UInt32) + 1).toNat = 0 := by decide
  rw [advance]
  rw [hstart, List.drop_zero]
  cases hfind : (records.take indexLimit).findIdx? (fun rec => rec.dir == dir) with
  | some i =>
    have hmem : ∃ rec ∈ records.take indexLimit, rec.dir = dir := by
      by_contra hnone
      have : (records.take indexLimit).findIdx? (fun rec => rec.dir == dir) = none := by
        rw [List.findIdx?_eq_none_iff]
        intro rec hrec
        simpa using fun heq => hnone ⟨rec, hrec, heq⟩
      rw [this] at hfind
      cases hfind
    simp [hmem]
  | none =>
    have hnone : ¬ ∃ rec ∈ records.take indexLimit, rec.dir = dir := by
      rintro ⟨rec, hrec, heq⟩
      have := List.findIdx?_eq_none_iff.mp hfind rec hrec
      simp [heq] at this
    simp [hnone]

/-- The trace starts with the event of a new session. -/
def StartsSession (records : List TraceFileRecord) : Prop :=
  ∃ first rest, records = first :: rest ∧ first.dir = Direction.event.char ∧
    (ascii "NewSession").isPrefixOf first.payload = true

theorem readFile_eq_some {file : Bytes} {r : TraceFileReader} (h : readFile file = some r) :
    r.records = readLines 0 (linesFrom [] file) ∧ StartsSession r.records ∧
      advance r.records (-1) Direction.incoming.char = some r.indexIn ∧
      advance r.records (-1) Direction.outgoing.char = some r.indexOut := by
  rw [readFile] at h
  split at h
  · cases h
  · rename_i first rest hrecords
    split at h
    · rename_i hfirst
      simp only [Option.bind_eq_bind, Option.bind_eq_some_iff] at h
      obtain ⟨indexIn, hin, indexOut, hout, hr⟩ := h
      obtain rfl := Option.some.inj hr
      exact ⟨rfl, ⟨first, rest, hrecords, hfirst⟩, hin, hout⟩
    · cases h

theorem exists_readFile {file : Bytes} (hstarts : StartsSession (readLines 0 (linesFrom [] file)))
    (hindexed : ∀ dir : Direction, dir ≠ .event →
      (advance (readLines 0 (linesFrom [] file)) (-1) dir.char).isSome) :
    ∃ r, readFile file = some r := by
  obtain ⟨first, rest, hrecords, hfirst⟩ := hstarts
  obtain ⟨indexIn, hin⟩ := Option.isSome_iff_exists.mp (hindexed .incoming (by decide))
  obtain ⟨indexOut, hout⟩ := Option.isSome_iff_exists.mp (hindexed .outgoing (by decide))
  rw [readFile]
  rw [hrecords] at hin hout ⊢
  dsimp only
  rw [if_pos hfirst, hin, hout]
  exact ⟨_, rfl⟩

theorem exists_of_forall₂ {epochStart : Int} {ws : List Written} {records : List TraceFileRecord}
    (h : List.Forall₂ (SameRecord epochStart) ws records) {w : Written} (hw : w ∈ ws) :
    ∃ rec ∈ records, SameRecord epochStart w rec := by
  induction h with
  | nil => simp at hw
  | cons hrec _ ih =>
    rcases List.mem_cons.mp hw with rfl | hw
    · exact ⟨_, List.mem_cons_self, hrec⟩
    · obtain ⟨rec, hmem, hrec⟩ := ih hw
      exact ⟨rec, List.mem_cons_of_mem _ hmem, hrec⟩

theorem dirs_of_forall₂ {epochStart : Int} {ws : List Written} {records : List TraceFileRecord}
    (h : List.Forall₂ (SameRecord epochStart) ws records) :
    records.map TraceFileRecord.dir = ws.map fun w => w.direction.char := by
  induction h with
  | nil => rfl
  | cons hrec _ ih => rw [List.map_cons, List.map_cons, ih, hrec.dir]

theorem Direction.char_injective {d d' : Direction} (h : d.char = d'.char) : d = d' := by
  cases d <;> cases d' <;> first | rfl | exact absurd h (by decide)

/-- The records that are read can be indexed if those that were written can. -/
theorem indexed_iff {epochStart : Int} {ws : List Written} {records : List TraceFileRecord}
    (h : List.Forall₂ (SameRecord epochStart) ws records) (dir : Direction) :
    (advance records (-1) dir.char).isSome ↔
      ws.length < indexLimit ∨ ∃ w ∈ ws.take indexLimit, w.direction = dir := by
  have hmem : (∃ rec ∈ records.take indexLimit, rec.dir = dir.char) ↔
      ∃ w ∈ ws.take indexLimit, w.direction = dir := by
    have hdirs : (records.take indexLimit).map TraceFileRecord.dir =
        (ws.take indexLimit).map fun w => w.direction.char := by
      rw [List.map_take, List.map_take, dirs_of_forall₂ h]
    have hiff : dir.char ∈ (records.take indexLimit).map TraceFileRecord.dir ↔
        dir.char ∈ (ws.take indexLimit).map fun w => w.direction.char := by rw [hdirs]
    rw [List.mem_map, List.mem_map] at hiff
    rw [hiff]
    constructor
    · rintro ⟨w, hw, heq⟩
      exact ⟨w, hw, Direction.char_injective heq⟩
    · rintro ⟨w, hw, rfl⟩
      exact ⟨w, hw, rfl⟩
  rw [isSome_advance, hmem, h.length_eq]

/-- **A trace is read as it was written** exactly when it is readable. -/
theorem readsBack_iff (epochStart : Int) (ws : List Written) :
    ReadsBack epochStart ws ↔ Readable epochStart ws := by
  constructor
  · rintro ⟨r, hread, hsame⟩
    obtain ⟨hrecords, ⟨first, rest, hfirst, hdir, hdata⟩, hin, hout⟩ := readFile_eq_some hread
    have hlines : ∀ l ∈ linesFrom [] (trace epochStart ws), lf ∉ l :=
      fun l hl => notMem_linesFrom (by simp) hl
    have hseparable : ∀ w ∈ ws, Separable w := by
      intro w hw
      obtain ⟨rec, hrec, hw⟩ := exists_of_forall₂ hsame hw
      rw [hrecords] at hrec
      exact separable_of_sameRecord hw (readLines_shape hlines hrec)
    have htimes := hsame
    rw [hrecords, readLines_trace hseparable, forall₂_stamped hseparable (by simp)] at htimes
    refine ⟨?_, hseparable, htimes.1, htimes.2, ?_⟩
    · rw [hfirst] at hsame
      cases hsame with
      | cons hw _ =>
        refine ⟨_, _, rfl, ?_, ?_⟩
        · exact Direction.char_injective (hw.dir.symm.trans hdir)
        · rw [← hw.payload]
          exact hdata
    · have hin' := (indexed_iff hsame .incoming).mp (by rw [hin]; rfl)
      have hout' := (indexed_iff hsame .outgoing).mp (by rw [hout]; rfl)
      rcases hin' with hlt | hin'
      · exact .inl hlt
      · rcases hout' with hlt | hout'
        · exact .inl hlt
        · exact .inr ⟨hin', hout'⟩
  · intro h
    have hrecords := readLines_trace h.separable epochStart 0
    have hsame := (@forall₂_stamped epochStart ws h.separable epochStart 0 (by simp)).mpr
      ⟨h.clock, h.range⟩
    rw [← hrecords] at hsame
    obtain ⟨w, rest, rfl, hevent, hdata⟩ := h.newSession
    have hstarts : StartsSession (readLines 0 (linesFrom [] (trace epochStart (w :: rest)))) := by
      rw [hrecords, stamped]
      exact ⟨_, _, rfl, congrArg Direction.char hevent, hdata⟩
    have hindexed : ∀ dir : Direction, dir ≠ .event →
        (advance (readLines 0 (linesFrom [] (trace epochStart (w :: rest)))) (-1) dir.char).isSome := by
      intro dir hne
      rw [indexed_iff hsame dir]
      rcases h.indexed with hlt | ⟨hin, hout⟩
      · exact .inl hlt
      · cases dir with
        | incoming => exact .inr hin
        | outgoing => exact .inr hout
        | event => exact absurd rfl hne
    obtain ⟨r, hr⟩ := exists_readFile hstarts hindexed
    refine ⟨r, hr, ?_⟩
    rw [(readFile_eq_some hr).1]
    exact hsame

/-! ## Replaying -/

/-- What the calls for one direction return from an index on. -/
def recordsFrom (records : List TraceFileRecord) (dir : UInt8) :
    UInt32 → Nat → Option (List TraceFileRecord)
  | _, 0 => some []
  | index, n + 1 =>
    match records[index.toNat]? with
    | some rec => do
      let next ← advance records index dir
      let rest ← recordsFrom records dir next n
      some (rec :: rest)
    | none => do
      let rest ← recordsFrom records dir index n
      some (.invalid :: rest)

theorem nextRecords_incoming (r : TraceFileReader) (n : Nat) :
    r.nextRecords .incoming n = recordsFrom r.records Direction.incoming.char r.indexIn n := by
  induction n generalizing r with
  | zero => rfl
  | succ n ih =>
    rw [TraceFileReader.nextRecords, recordsFrom, TraceFileReader.getNextRecord, if_pos rfl]
    cases r.records[r.indexIn.toNat]? with
    | none => simp [ih]
    | some rec =>
      cases advance r.records r.indexIn Direction.incoming.char with
      | none => simp
      | some next => simp [ih]

theorem nextRecords_outgoing (r : TraceFileReader) (n : Nat) :
    r.nextRecords .outgoing n = recordsFrom r.records Direction.outgoing.char r.indexOut n := by
  induction n generalizing r with
  | zero => rfl
  | succ n ih =>
    rw [TraceFileReader.nextRecords, recordsFrom, TraceFileReader.getNextRecord, if_neg (by decide)]
    cases r.records[r.indexOut.toNat]? with
    | none => simp [ih]
    | some rec =>
      cases advance r.records r.indexOut Direction.outgoing.char with
      | none => simp
      | some next => simp [ih]

/-- **What `advance` finds**, where the index can reach the end: nothing of the direction is passed
over, and it stops at a record of the direction or at the end. -/
theorem advance_spec {records : List TraceFileRecord} (hlength : records.length < indexLimit)
    (index : UInt32) (hstart : (index + 1).toNat ≤ records.length) (dir : UInt8) :
    ∃ next, advance records index dir = some next ∧ next.toNat ≤ records.length ∧
      (∀ rec, records[next.toNat]? = some rec → rec.dir = dir) ∧
      (records.drop (index + 1).toNat).filter (fun rec => rec.dir == dir) =
        (records.drop next.toNat).filter (fun rec => rec.dir == dir) := by
  have htake : records.take indexLimit = records := List.take_of_length_le (Nat.le_of_lt hlength)
  have hnat : ∀ {i : Nat}, i ≤ records.length → (UInt32.ofNat i).toNat = i :=
    fun hi => UInt32.toNat_ofNat_of_lt' (Nat.lt_of_le_of_lt hi hlength)
  rw [advance, htake]
  cases hfind : (records.drop (index + 1).toNat).findIdx? (fun rec => rec.dir == dir) with
  | none =>
    refine ⟨_, if_pos hlength, ?_, ?_, ?_⟩
    · rw [hnat (Nat.le_refl _)]
    · intro rec hrec
      rw [hnat (Nat.le_refl _)] at hrec
      simp at hrec
    · rw [hnat (Nat.le_refl _), List.drop_length, List.filter_nil, List.filter_eq_nil_iff]
      intro rec hrec
      simpa using List.findIdx?_eq_none_iff.mp hfind rec hrec
  | some i =>
    obtain ⟨hi, hdir, hbefore⟩ := List.findIdx?_eq_some_iff_getElem.mp hfind
    rw [List.length_drop] at hi
    have hle : (index + 1).toNat + i < records.length := by omega
    refine ⟨_, rfl, ?_, ?_, ?_⟩
    · rw [hnat (Nat.le_of_lt hle)]
      exact Nat.le_of_lt hle
    · intro rec hrec
      rw [hnat (Nat.le_of_lt hle), List.getElem?_eq_getElem hle] at hrec
      rw [List.getElem_drop, beq_iff_eq] at hdir
      rw [← Option.some.inj hrec]
      exact hdir
    · rw [hnat (Nat.le_of_lt hle), ← List.take_append_drop i (records.drop (index + 1).toNat),
        List.filter_append, List.drop_drop]
      have hnone : ((records.drop (index + 1).toNat).take i).filter (fun rec => rec.dir == dir) = [] := by
        rw [List.filter_eq_nil_iff]
        intro rec hrec
        obtain ⟨j, hj, rfl⟩ := List.mem_iff_getElem.mp hrec
        rw [List.length_take] at hj
        have := hbefore j (by omega)
        rw [List.getElem_take]
        simpa using this
      rw [hnone, List.nil_append]

theorem take_replicate_succ {α : Type} (l : List α) (a : α) (n : Nat) :
    (l ++ List.replicate (n + 1) a).take n = (l ++ List.replicate n a).take n := by
  rw [List.replicate_succ', ← List.append_assoc, List.take_append_of_le_length]
  rw [List.length_append, List.length_replicate]
  omega

/-- The calls return what is left of the direction. -/
theorem recordsFrom_eq {records : List TraceFileRecord} (hlength : records.length < indexLimit)
    {dir : UInt8} {index : UInt32} (hindex : index.toNat ≤ records.length)
    (hdir : ∀ rec, records[index.toNat]? = some rec → rec.dir = dir) (n : Nat) :
    recordsFrom records dir index n =
      some (((records.drop index.toNat).filter (fun rec => rec.dir == dir) ++
        List.replicate n TraceFileRecord.invalid).take n) := by
  induction n generalizing index with
  | zero => simp [recordsFrom]
  | succ n ih =>
    rw [recordsFrom]
    cases hrec : records[index.toNat]? with
    | none =>
      have hend : records.drop index.toNat = [] :=
        List.drop_eq_nil_of_le (List.getElem?_eq_none_iff.mp hrec)
      have hrest := ih hindex hdir
      rw [hend, List.filter_nil, List.nil_append, List.take_replicate] at hrest ⊢
      simp [hrest, List.replicate_succ]
    | some rec =>
      obtain ⟨hlt, hget⟩ := List.getElem?_eq_some_iff.mp hrec
      have hone : (index + 1).toNat = index.toNat + 1 := by
        have hlimit : indexLimit = 2 ^ 32 := rfl
        rw [UInt32.toNat_add]
        have : (1 : UInt32).toNat = 1 := rfl
        omega
      obtain ⟨next, hnext, hle, hdir', hfilter⟩ := advance_spec hlength index (by omega) dir
      have hdrop : records.drop index.toNat = rec :: records.drop (index.toNat + 1) := by
        rw [List.drop_eq_getElem_cons hlt, hget]
      have hcons : (rec :: records.drop (index.toNat + 1)).filter (fun rec => rec.dir == dir) =
          rec :: (records.drop next.toNat).filter (fun rec => rec.dir == dir) := by
        rw [List.filter_cons, if_pos (by simpa using hdir rec hrec), ← hfilter, hone]
      dsimp only
      rw [hnext, hdrop, hcons, List.cons_append, List.take_succ_cons, take_replicate_succ]
      simp only [Option.bind_eq_bind, Option.bind_some, ih hle hdir']

/-- Where the index can reach the end, the incoming and the outgoing records are replayed. -/
theorem replays_of_length_lt {file : Bytes} {r : TraceFileReader} (h : readFile file = some r)
    (hlength : r.records.length < indexLimit) : Replays r .incoming ∧ Replays r .outgoing := by
  obtain ⟨-, -, hin, hout⟩ := readFile_eq_some h
  have hstart : ((-1 : UInt32) + 1).toNat = 0 := by decide
  have hspec : ∀ {dir : UInt8} {index : UInt32}, advance r.records (-1) dir = some index → ∀ n,
      recordsFrom r.records dir index n = some ((r.records.filter (fun rec => rec.dir == dir) ++
        List.replicate n TraceFileRecord.invalid).take n) := by
    intro dir index hindex n
    obtain ⟨next, hnext, hle, hdir, hfilter⟩ := advance_spec hlength (-1) (by rw [hstart]; omega) dir
    obtain rfl := Option.some.inj (hindex.symm.trans hnext)
    rw [hstart, List.drop_zero] at hfilter
    rw [recordsFrom_eq hlength hle hdir, hfilter]
  refine ⟨fun n => ?_, fun n => ?_⟩
  · rw [nextRecords_incoming]
    exact hspec hin n
  · rw [nextRecords_outgoing]
    exact hspec hout n

/-- The index for all that is not incoming starts at an outgoing record, or behind the last. -/
theorem dir_of_advance {records : List TraceFileRecord} {dir : UInt8} {index : UInt32}
    (h : advance records (-1) dir = some index) {rec : TraceFileRecord}
    (hrec : records[index.toNat]? = some rec) : rec.dir = dir := by
  have hstart : ((-1 : UInt32) + 1).toNat = 0 := by decide
  have hfound : ∀ {i : Nat}, (records.take indexLimit).findIdx? (fun rec => rec.dir == dir) = some i →
      records[(UInt32.ofNat i).toNat]? = some rec → rec.dir = dir := by
    intro i hfind hget
    obtain ⟨hi, hdir, -⟩ := List.findIdx?_eq_some_iff_getElem.mp hfind
    rw [List.length_take] at hi
    rw [UInt32.toNat_ofNat_of_lt' (Nat.lt_of_lt_of_le hi (Nat.min_le_left _ _)),
      List.getElem?_eq_getElem (Nat.lt_of_lt_of_le hi (Nat.min_le_right _ _))] at hget
    rw [List.getElem_take, Option.some.inj hget] at hdir
    simpa using hdir
  rw [advance, hstart, List.drop_zero] at h
  cases hfind : (records.take indexLimit).findIdx? (fun rec => rec.dir == dir) with
  | some i =>
    simp only [hfind, Nat.zero_add, Option.some.injEq] at h
    rw [← h] at hrec
    exact hfound hfind hrec
  | none =>
    simp only [hfind, Option.map_none] at h
    split at h
    · rename_i hlt
      rw [← Option.some.inj h, UInt32.toNat_ofNat_of_lt' hlt] at hrec
      simp at hrec
    · cases h

/-- **Asked for events, `getNextRecord` does not give them**, whatever the trace. -/
theorem not_replays_event {file : Bytes} {r : TraceFileReader} (h : readFile file = some r) :
    ¬ Replays r .event := by
  obtain ⟨-, ⟨first, rest, hfirst, hdir, -⟩, -, hout⟩ := readFile_eq_some h
  intro hreplays
  have hone := hreplays 1
  have hright : (r.records.filter (fun rec => rec.dir == Direction.event.char) ++
      List.replicate 1 TraceFileRecord.invalid).take 1 = [first] := by
    rw [hfirst, List.filter_cons, if_pos (by simp [hdir])]
    rfl
  rw [hright, TraceFileReader.nextRecords, TraceFileReader.getNextRecord, if_neg (by decide)] at hone
  cases hget : r.records[r.indexOut.toNat]? with
  | none =>
    simp only [hget, TraceFileReader.nextRecords, Option.bind_eq_bind, Option.bind_some,
      Option.some.injEq, List.cons.injEq, and_true] at hone
    rw [← hone] at hdir
    exact absurd hdir (by decide)
  | some rec =>
    have houtgoing := dir_of_advance hout hget
    simp only [hget, TraceFileReader.nextRecords, Option.bind_eq_bind, Option.bind_eq_some_iff,
      Option.some.injEq] at hone
    obtain ⟨⟨rec', r'⟩, ⟨next, -, heq⟩, rest', rfl, hcons⟩ := hone
    obtain ⟨rfl, -⟩ := Prod.mk.inj heq
    rw [List.cons.injEq] at hcons
    rw [← hcons.1, houtgoing] at hdir
    exact absurd hdir (by decide)

/-- **Traces.** No trace is replayed in every direction. It is read as it was written exactly when
it is readable; and then, with fewer than 2³² records, the incoming and the outgoing records are
replayed. -/
theorem trace_replay (epochStart : Int) (ws : List Written) :
    (¬ ∃ r, readFile (trace epochStart ws) = some r ∧
        List.Forall₂ (SameRecord epochStart) ws r.records ∧ ∀ dir, Replays r dir) ∧
      (ReadsBack epochStart ws ↔ Readable epochStart ws) ∧
      (Readable epochStart ws → ws.length < indexLimit →
        ∃ r, readFile (trace epochStart ws) = some r ∧
          List.Forall₂ (SameRecord epochStart) ws r.records ∧
            Replays r .incoming ∧ Replays r .outgoing) := by
  refine ⟨?_, readsBack_iff epochStart ws, ?_⟩
  · rintro ⟨r, hread, -, hreplays⟩
    exact not_replays_event hread (hreplays .event)
  · intro hreadable hlength
    obtain ⟨r, hread, hsame⟩ := (readsBack_iff epochStart ws).mpr hreadable
    refine ⟨r, hread, hsame, replays_of_length_lt hread ?_⟩
    rwa [← hsame.length_eq]

/-- A session with one message each way. -/
def shortSession : List Written :=
  [⟨.event, 1000, ascii "7", ascii "0001", ascii "NewSession: a.odt"⟩,
    ⟨.incoming, 1500, ascii "7", ascii "0001", ascii "load url=a.odt"⟩,
    ⟨.outgoing, 2000, ascii "7", ascii "0001", ascii "status: type=text"⟩]

theorem readable_shortSession : Readable 1000 shortSession where
  newSession := ⟨_, _, rfl, rfl, by decide⟩
  separable := by
    intro w hw
    simp only [shortSession, List.mem_cons, List.not_mem_nil, or_false] at hw
    rcases hw with rfl | rfl | rfl <;> constructor <;> decide +kernel
  clock := by decide
  range := by decide
  indexed := .inl (by decide)

theorem trace_replay_shortSession :
    ∃ r, readFile (trace 1000 shortSession) = some r ∧
      List.Forall₂ (SameRecord 1000) shortSession r.records ∧ Replays r .incoming ∧ Replays r .outgoing :=
  (trace_replay 1000 shortSession).2.2 readable_shortSession (by decide)

/-- Asked for the events of the short session, the reader gives the outgoing message. -/
theorem not_trace_replay :
    ¬ ∀ (epochStart : Int) (ws : List Written), ∃ r, readFile (trace epochStart ws) = some r ∧
      List.Forall₂ (SameRecord epochStart) ws r.records ∧ ∀ dir, Replays r dir := by
  intro h
  obtain ⟨r, hread, -, hreplays⟩ := h 1000 shortSession
  exact not_replays_event hread (hreplays .event)

end Oxool.Wsd.TraceFile
