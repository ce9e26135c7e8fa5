import Oxool.Kit.TileQueue
import Oxool.Tile.RoundTrip

/-!
# Invalidations on the queue (`common/MessageQueue.cpp`)

The office core says which areas of a document are to be painted again, and a new invalidation on the
queue takes out those it makes superfluous: an area that it covers goes, and one that it meets is
joined with it when the area around both is small. What was to be painted again still is, if the
queue reads its messages as the session does that gets them, and if no number leaves the range of
`int`. Neither is certain. The queue does not read the mode of an `EMPTY`, so that the whole of one
mode takes out the areas of another; and the edge of an area, its size and its place added, wraps
around behind the largest `int`, where the edge of the whole document already is.
-/

set_option autoImplicit false

namespace Oxool.Kit

open Oxool.Http (Bytes ascii)
open Oxool.Protocol

/-! ## The session's reading (`kit/Kit.cpp`, `kit/ChildSession.cpp`) -/

inductive StoiError where
  | invalid_argument
  | out_of_range

/-- `std::stoi`. -/
def stoi (s : Bytes) : Except StoiError Int :=
  match strtol s with
  | none => .error .invalid_argument
  | some (value, outOfRange) =>
    if outOfRange = true ∨ ¬ IsInt32 value then .error .out_of_range else .ok value

/-- Everything of one part in one mode. -/
def Invalidation.everything (part mode : Int) : Invalidation := ⟨0, 0, intMax, intMax, part, mode⟩

/-- The numbers of a rectangle; one that is out of range makes it everything. -/
def readRectangle (x y w h part : Bytes) (mode : Option Bytes) : Option Invalidation :=
  let read : Except StoiError Invalidation := do
    let x ← stoi x
    let y ← stoi y
    let w ← stoi w
    let h ← stoi h
    let part ← stoi part
    let mode ← match mode with
      | none => pure 0
      | some mode => stoi mode
    return ⟨x, y, w, h, part, mode⟩
  match read with
  | .ok r => some r
  | .error .out_of_range => some (.everything 0 0)
  | .error .invalid_argument => none

/-- `loKitCallback`, for invalidations. The part and the mode of an `EMPTY` are left to the client. -/
def readPayload (payload : Bytes) : Option Invalidation :=
  match tokenize payload comma with
  | [x, y, w, h, part] => readRectangle x y w h part none
  | [x, y, w, h, part, mode] => readRectangle x y w h part (some mode)
  | [word, part] => if word = ascii "EMPTY" then some (.everything (atoi part) 0) else none
  | [word, part, mode] =>
    if word = ascii "EMPTY" then some (.everything (atoi part) (atoi mode)) else none
  | _ => none

/-- The view that a message of the queue is for, and the area it invalidates there. -/
def readInvalidation (message : Bytes) : Option (Bytes × Invalidation) :=
  match tokenize message blank with
  | word :: target :: type :: _ =>
    if word = ascii "callback" ∧ (stoi type).toOption = some invalidateTiles then
      (substrFrom message (tokenLengths [word, target, type] + 3)).bind fun payload =>
        (readPayload payload).map fun r => (target, r)
    else none
  | _ => none

/-! ## New invalidations -/

inductive Target where
  | all
  | view (viewId : Int)

def Target.text : Target → Bytes
  | .all => ascii "all"
  | .view viewId => decimal viewId

/-- An invalidation of the office core. There is no rectangle in an `EMPTY`. -/
structure Notice where
  target : Target
  rectangle : Option (Int × Int × Int × Int)
  part : Int
  mode : Option Int
  rectangle_ints : ∀ r ∈ rectangle, IsInt32 r.1 ∧ IsInt32 r.2.1 ∧ IsInt32 r.2.2.1 ∧ IsInt32 r.2.2.2
  part_int : IsInt32 part
  mode_int : ∀ k ∈ mode, IsInt32 k

/-- Words with a comma and a blank between them. -/
def listed : List Bytes → Bytes
  | [] => []
  | word :: words => word ++ words.flatMap fun w => comma :: blank :: w

namespace Notice

def items (n : Notice) : List Bytes :=
  (match n.rectangle with
    | some (x, y, w, h) => [decimal x, decimal y, decimal w, decimal h]
    | none => [ascii "EMPTY"]) ++
    decimal n.part :: n.mode.toList.map decimal

/-- The message that is put on the queue. -/
def text (n : Notice) : Bytes :=
  ascii "callback" ++ fields blank [n.target.text, ascii "0", listed n.items]

/-- What it invalidates. -/
def invalidation (n : Notice) : Invalidation :=
  match n.rectangle with
  | some (x, y, w, h) => ⟨x, y, w, h, n.part, n.mode.getD 0⟩
  | none => .everything n.part (n.mode.getD 0)

end Notice

/-- What the queue reads of its own message: of an `EMPTY` not the mode. -/
def Notice.queueReading (n : Notice) : Invalidation :=
  match n.rectangle with
  | some _ => n.invalidation
  | none => .everything n.part 0

/-! ## What is asked -/

/-- A point of the document is in the area. -/
def Invalidation.Contains (r : Invalidation) (p : Int × Int) : Prop :=
  (r.x ≤ p.1 ∧ p.1 < r.x + r.w) ∧ r.y ≤ p.2 ∧ p.2 < r.y + r.h

instance (r : Invalidation) (p : Int × Int) : Decidable (r.Contains p) :=
  inferInstanceAs (Decidable (_ ∧ _))

/-- A point is to be painted again, for a view, in one part and one mode. -/
def Invalidated (queue : List Bytes) (target : Bytes) (part mode : Int) (p : Int × Int) : Prop :=
  ∃ m ∈ queue, ∃ r, readInvalidation m = some (target, r) ∧ r.part = part ∧ r.mode = mode ∧ r.Contains p

/-- **No area is lost**: the put does not throw, and what was invalidated on the queue or is by the
new message is invalidated afterwards. -/
structure AreaKept (viewIdOf : Bytes → Option Bytes) (q : TileQueue) (n : Notice) : Prop where
  put : (q.put viewIdOf n.text).2 = false
  kept : ∀ target part mode p, Invalidated (q.queue ++ [n.text]) target part mode p →
    Invalidated (q.put viewIdOf n.text).1.queue target part mode p

/-! ## When it is so -/

/-- The far edges are `int`s. -/
def Invalidation.EdgesFit (r : Invalidation) : Prop := IsInt32 (r.x + r.w) ∧ IsInt32 (r.y + r.h)

instance (r : Invalidation) : Decidable r.EdgesFit := inferInstanceAs (Decidable (_ ∧ _))

/-- The sizes of the area around both are `int`s. -/
def Invalidation.JoinFits (msg queued : Invalidation) : Prop :=
  IsInt32 (max (msg.x + msg.w) (queued.x + queued.w) - min msg.x queued.x) ∧
    IsInt32 (max (msg.y + msg.h) (queued.y + queued.h) - min msg.y queued.y)

instance (msg queued : Invalidation) : Decidable (msg.JoinFits queued) :=
  inferInstanceAs (Decidable (_ ∧ _))

/-- The area around both. -/
def Invalidation.around (msg queued : Invalidation) : Invalidation :=
  { msg with
    x := min msg.x queued.x
    y := min msg.y queued.y
    w := max (msg.x + msg.w) (queued.x + queued.w) - min msg.x queued.x
    h := max (msg.y + msg.h) (queued.y + queued.h) - min msg.y queued.y }

/-- The queue, gone over in unbounded integers: the area that the new message grows to, what is taken out
for it, and what is left. There is none where something is taken out for a number that is no `int`. -/
def sweep (tokens : List Bytes) : Invalidation → List Bytes →
    Option (Invalidation × List Bytes × List Bytes)
  | area, [] => some (area, [], [])
  | area, it :: rest =>
    match queuedInvalidation tokens area it with
    | none => (sweep tokens area rest).map fun r => (r.1, r.2.1, it :: r.2.2)
    | some queued =>
      if area.covers queued then
        if area.EdgesFit ∧ queued.EdgesFit then
          (sweep tokens area rest).map fun r => (r.1, it :: r.2.1, r.2.2)
        else none
      else if area.intersects queued && (area.join queued).isReasonable then
        if (area.EdgesFit ∧ queued.EdgesFit) ∧ area.JoinFits queued then
          (sweep tokens (area.around queued) rest).map fun r => (r.1, it :: r.2.1, r.2.2)
        else none
      else (sweep tokens area rest).map fun r => (r.1, r.2.1, it :: r.2.2)

/-- The session reads the same rectangle as the queue, for the view, the part and the mode of the new
message. -/
def ReadRightly (n : Notice) (it : Bytes) : Prop :=
  readInvalidation it = (extractRectangle (tokenize it blank)).map fun queued =>
    (n.target.text, { queued with part := n.part, mode := n.invalidation.mode })

instance (n : Notice) (it : Bytes) : Decidable (ReadRightly n it) := inferInstanceAs (Decidable (_ = _))

/-- What the session reads is invalidated by what is left of the queue, or by the new area. -/
def Superfluous (n : Notice) (area : Invalidation) (left : List Bytes) (it : Bytes) : Prop :=
  ∀ target r, readInvalidation it = some (target, r) → ∀ p, r.Contains p →
    Invalidated left target r.part r.mode p ∨
      (target = n.target.text ∧ r.part = n.part ∧ r.mode = n.invalidation.mode) ∧ area.Contains p

/-- What is taken out of the queue is read rightly there, or is superfluous. -/
def TakesOutRightly (n : Notice) (area : Invalidation) (taken left : List Bytes) : Prop :=
  ∀ it ∈ taken, ReadRightly n it ∨ Superfluous n area left it

/-- The loop starts with what the queue reads of the new message. -/
def sweepFor (n : Notice) (queue : List Bytes) : Option (Invalidation × List Bytes × List Bytes) :=
  sweep (tokenize n.text blank) n.queueReading queue

/-- Nothing is taken out for a number that is no `int`. -/
def InInts (queue : List Bytes) (n : Notice) : Prop := (sweepFor n queue).isSome

/-- The put is right: it computes with `int`s, and takes out rightly. -/
def PutRightly (queue : List Bytes) (n : Notice) : Prop :=
  ∃ area taken left, sweepFor n queue = some (area, taken, left) ∧ TakesOutRightly n area taken left

/-! ## The words of a message -/

/-- The words of a list with blanks between them: the commas are at their ends. -/
def commaWords : List Bytes → List Bytes
  | [] => []
  | [word] => [word]
  | word :: next :: words => (word ++ [comma]) :: commaWords (next :: words)

theorem fields_commaWords {words : List Bytes} (h : words ≠ []) :
    fields blank (commaWords words) = blank :: listed words := by
  induction words with
  | nil => exact absurd rfl h
  | cons word words ih =>
    cases words with
    | nil => simp [commaWords, fields, listed]
    | cons next words =>
      have hrest := ih (List.cons_ne_nil _ _)
      rw [commaWords, fields, List.flatMap_cons, ← fields, hrest]
      simp [listed]

theorem isToken_commaWords {words : List Bytes} (h : ∀ w ∈ words, IsToken blank w) :
    ∀ w ∈ commaWords words, IsToken blank w := by
  induction words with
  | nil => exact h
  | cons word words ih =>
    cases words with
    | nil => exact h
    | cons next words =>
      rw [commaWords]
      refine List.forall_mem_cons.mpr ⟨⟨by simp, ?_⟩, ih fun w hw => h w (List.mem_cons_of_mem _ hw)⟩
      exact (h word List.mem_cons_self).2.append (by decide)

theorem tokenize_listed {word : Bytes} {words : List Bytes} (hword : IsToken comma word)
    (h0 : word.head? ≠ some 0) (hwords : ∀ w ∈ words, Plain comma w) :
    tokenize (listed (word :: words)) comma = word :: words.map (blank :: ·) := by
  have hfields : listed (word :: words) = word ++ fields comma (words.map (blank :: ·)) := by
    rw [listed, fields, List.flatMap_map]
  rw [hfields]
  refine tokenize_fields (by decide) h0 hword fun u hu => ?_
  obtain ⟨w, hw, rfl⟩ := List.mem_map.mp hu
  refine ⟨List.cons_ne_nil _ _, fun b hb => ?_⟩
  rcases List.mem_cons.mp hb with rfl | hb
  · decide
  · exact hwords w hw b hb

namespace Notice

variable (n : Notice)

theorem items_ne_nil : n.items ≠ [] := by simp [items]

theorem isToken_items : ∀ w ∈ n.items, IsToken blank w := by
  have hdecimal : ∀ k, IsToken blank (decimal k) := fun k => ⟨decimal_ne_nil k, decimal_plain⟩
  intro w hw
  rw [items] at hw
  rcases List.mem_append.mp hw with hw | hw
  · cases hrect : n.rectangle with
    | none =>
      rw [hrect] at hw
      rw [List.mem_singleton.mp hw]
      decide
    | some r =>
      obtain ⟨x, y, w', h'⟩ := r
      simp only [hrect, List.mem_cons, List.not_mem_nil, or_false] at hw
      rcases hw with rfl | rfl | rfl | rfl <;> exact hdecimal _
  · rcases List.mem_cons.mp hw with rfl | hw
    · exact hdecimal _
    · obtain ⟨k, -, rfl⟩ := List.mem_map.mp hw
      exact hdecimal k

theorem isToken_target : IsToken blank n.target.text := by
  cases n.target with
  | all => decide
  | view viewId => exact ⟨decimal_ne_nil viewId, decimal_plain⟩

theorem text_eq : n.text =
    ascii "callback" ++ fields blank (n.target.text :: ascii "0" :: commaWords n.items) := by
  have hitems := fields_commaWords n.items_ne_nil
  simp only [fields] at hitems
  simp only [text, fields, List.flatMap_cons, hitems, List.flatMap_nil, List.append_nil]

theorem tokenize_text : tokenize n.text blank =
    ascii "callback" :: n.target.text :: ascii "0" :: commaWords n.items := by
  rw [text_eq]
  refine tokenize_fields (by decide) (by decide) (by decide) ?_
  refine List.forall_mem_cons.mpr ⟨n.isToken_target, List.forall_mem_cons.mpr ⟨by decide, ?_⟩⟩
  exact isToken_commaWords n.isToken_items

end Notice

/-! ## The numbers -/

theorem decimal_ne_word {k : Int} {w : Bytes} (h : ∃ b ∈ w, b ≠ 45 ∧ Http.isDigit b = false) :
    decimal k ≠ w := by
  rintro rfl
  obtain ⟨b, hb, hsign, hdigit⟩ := h
  rcases mem_decimal hb with rfl | hb
  · exact hsign rfl
  · exact Bool.false_ne_true (hdigit.symm.trans hb)

theorem strtol_blank (s : Bytes) : strtol (blank :: s) = strtol s := by
  rw [strtol, strtol, List.dropWhile_cons_of_pos (by decide)]

theorem atoi_comma {k : Int} (hk : IsInt32 k) : atoi (decimal k ++ [comma]) = k := by
  have hrest : ∀ b, [comma].head? = some b → Http.isDigit b = false := by
    intro b hb
    obtain rfl := Option.some.inj hb
    decide
  rw [atoi, strtol_int32 hk hrest]
  exact toInt32_eq hk

theorem atoi_decimal {k : Int} (hk : IsInt32 k) : atoi (decimal k) = k := by
  rw [atoi, ← List.append_nil (decimal k), strtol_int32 hk (by simp)]
  exact toInt32_eq hk

theorem atoi_blank (s : Bytes) : atoi (blank :: s) = atoi s := by
  rw [atoi, strtol_blank, ← atoi]

theorem stoi_decimal {k : Int} (hk : IsInt32 k) : stoi (decimal k) = .ok k := by
  rw [stoi, ← List.append_nil (decimal k), strtol_int32 hk (by simp)]
  exact if_neg (by simp [hk])

theorem stoi_blank (s : Bytes) : stoi (blank :: s) = stoi s := by
  rw [stoi, strtol_blank, ← stoi]

/-! ## Both readings of a message -/

namespace Notice

variable (n : Notice)

theorem extractRectangle_text : extractRectangle (tokenize n.text blank) = some n.queueReading := by
  rw [tokenize_text]
  obtain ⟨target, rectangle, part, mode, hrect, hpart, hmode⟩ := n
  cases rectangle with
  | none =>
    cases mode with
    | none =>
      simp only [items, commaWords, extractRectangle, queueReading, Invalidation.everything,
        Option.toList_none, List.map_nil, List.singleton_append, atoi_decimal hpart]
      rfl
    | some k =>
      simp only [items, commaWords, extractRectangle, queueReading, Invalidation.everything,
        Option.toList_some, List.map_cons, List.map_nil, List.singleton_append, atoi_comma hpart]
      rfl
  | some r =>
    obtain ⟨x, y, w, h⟩ := r
    obtain ⟨hx, hy, hw, hh⟩ := hrect _ rfl
    have hword : decimal x ++ [comma] ≠ ascii "EMPTY," := by
      intro heq
      exact decimal_ne_word (w := ascii "EMPTY") ⟨69, by decide⟩ (List.append_inj_left' heq rfl)
    cases mode with
    | none =>
      simp only [items, commaWords, extractRectangle, queueReading, invalidation, Option.toList_none,
        List.map_nil, List.cons_append, List.nil_append, if_neg hword, atoi_comma hx, atoi_comma hy,
        atoi_comma hw, atoi_comma hh, atoi_decimal hpart, Option.getD_none]
    | some k =>
      simp only [items, commaWords, extractRectangle, queueReading, invalidation, Option.toList_some,
        List.map_cons, List.map_nil, List.cons_append, List.nil_append, if_neg hword, atoi_comma hx,
        atoi_comma hy, atoi_comma hw, atoi_comma hh, atoi_comma hpart, atoi_decimal (hmode k rfl),
        Option.getD_some]

/-- The payload is what stands behind the type. -/
theorem substrFrom_text :
    substrFrom n.text (tokenLengths [ascii "callback", n.target.text, ascii "0"] + 3) =
      some (listed n.items) := by
  have htext : n.text = (ascii "callback" ++ blank :: n.target.text ++ blank :: ascii "0" ++ [blank]) ++
      listed n.items := by
    simp [text, fields]
  have hlength : (ascii "callback" ++ blank :: n.target.text ++ blank :: ascii "0" ++ [blank]).length =
      tokenLengths [ascii "callback", n.target.text, ascii "0"] + 3 := by
    simp only [tokenLengths, List.map_cons, List.map_nil, List.sum_cons, List.sum_nil, List.length_append,
      List.length_cons, List.length_nil]
    omega
  rw [htext, substrFrom, if_neg, List.drop_left' hlength]
  rw [List.length_append, hlength]
  omega

theorem readPayload_listed : readPayload (listed n.items) = some n.invalidation := by
  obtain ⟨target, rectangle, part, mode, hrect, hpart, hmode⟩ := n
  have hplain : ∀ k : Int, Plain comma (decimal k) := fun k => (TileCombined.isToken_decimal k).2
  have hmodes : ∀ w ∈ decimal part :: mode.toList.map decimal, Plain comma w := by
    intro w hw
    rcases List.mem_cons.mp hw with rfl | hw
    · exact hplain _
    · obtain ⟨k, -, rfl⟩ := List.mem_map.mp hw
      exact hplain k
  cases rectangle with
  | none =>
    have htokens : tokenize (listed (items ⟨target, none, part, mode, hrect, hpart, hmode⟩)) comma =
        ascii "EMPTY" :: (decimal part :: mode.toList.map decimal).map (blank :: ·) :=
      tokenize_listed (by decide) (by decide) hmodes
    rw [readPayload, htokens]
    cases mode with
    | none =>
      simp only [Option.toList_none, List.map_cons, List.map_nil, if_true, atoi_blank,
        atoi_decimal hpart, invalidation, Option.getD_none]
    | some k =>
      simp only [Option.toList_some, List.map_cons, List.map_nil, if_true, atoi_blank,
        atoi_decimal hpart, atoi_decimal (hmode k rfl), invalidation, Option.getD_some]
  | some r =>
    obtain ⟨x, y, w, h⟩ := r
    obtain ⟨hx, hy, hw, hh⟩ := hrect _ rfl
    have htokens : tokenize (listed (items ⟨target, some (x, y, w, h), part, mode, hrect, hpart, hmode⟩))
        comma = decimal x :: (decimal y :: decimal w :: decimal h :: decimal part ::
          mode.toList.map decimal).map (blank :: ·) := by
      refine tokenize_listed (TileCombined.isToken_decimal x) (TileCombined.head_decimal x) ?_
      exact List.forall_mem_cons.mpr ⟨hplain y, List.forall_mem_cons.mpr ⟨hplain w,
        List.forall_mem_cons.mpr ⟨hplain h, hmodes⟩⟩⟩
    rw [readPayload, htokens]
    cases mode with
    | none =>
      simp only [Option.toList_none, List.map_cons, List.map_nil, readRectangle, stoi_blank,
        stoi_decimal hx, stoi_decimal hy, stoi_decimal hw, stoi_decimal hh, stoi_decimal hpart,
        invalidation, Option.getD_none]
      rfl
    | some k =>
      simp only [Option.toList_some, List.map_cons, List.map_nil, readRectangle, stoi_blank,
        stoi_decimal hx, stoi_decimal hy, stoi_decimal hw, stoi_decimal hh, stoi_decimal hpart,
        stoi_decimal (hmode k rfl), invalidation, Option.getD_some]
      rfl

/-- **A message of the office core is read by the session as it was meant.** -/
theorem readInvalidation_text : readInvalidation n.text = some (n.target.text, n.invalidation) := by
  have htype : (stoi (ascii "0")).toOption = some invalidateTiles := by decide
  rw [readInvalidation, n.tokenize_text]
  dsimp only
  rw [if_pos ⟨rfl, htype⟩, n.substrFrom_text, Option.bind_some, n.readPayload_listed]
  rfl

/-- The message with another rectangle in it. -/
def withRectangle (r : Invalidation) (hr : IsInt32 r.x ∧ IsInt32 r.y ∧ IsInt32 r.w ∧ IsInt32 r.h) :
    Notice :=
  { n with
    rectangle := some (r.x, r.y, r.w, r.h)
    rectangle_ints := fun r' hr' => by
      obtain rfl := Option.some.inj hr'
      exact hr }

/-- **The joined message is written as the office core would have written it.** -/
theorem mergedText_text {x y w h : Int} (hrect : n.rectangle = some (x, y, w, h)) {r : Invalidation}
    (hr : IsInt32 r.x ∧ IsInt32 r.y ∧ IsInt32 r.w ∧ IsInt32 r.h) :
    mergedText n.text (tokenize n.text blank) r = some (n.withRectangle r hr).text := by
  let start := ascii "callback" ++ blank :: n.target.text ++ blank :: ascii "0" ++ [blank]
  let numbers := [x, y, w, h].flatMap fun k => decimal k ++ [comma] ++ [blank]
  let finish := listed (decimal n.part :: n.mode.toList.map decimal)
  have hitems : n.items =
      [decimal x, decimal y, decimal w, decimal h] ++ decimal n.part :: n.mode.toList.map decimal := by
    rw [items, hrect]
  have htokens : tokenize n.text blank = [ascii "callback", n.target.text, ascii "0"] ++
      [decimal x ++ [comma], decimal y ++ [comma], decimal w ++ [comma], decimal h ++ [comma]] ++
      commaWords (decimal n.part :: n.mode.toList.map decimal) := by
    rw [tokenize_text, hitems]
    simp only [List.cons_append, List.nil_append, commaWords]
  have htext : n.text = start ++ numbers ++ finish := by
    rw [text, hitems]
    simp [start, numbers, finish, fields, listed]
  have hstart : start.length = tokenLengths [ascii "callback", n.target.text, ascii "0"] + 3 := by
    simp only [start, tokenLengths, List.map_cons, List.map_nil, List.sum_cons, List.sum_nil,
      List.length_append, List.length_cons, List.length_nil]
    omega
  have hnumbers : numbers.length = tokenLengths
      [decimal x ++ [comma], decimal y ++ [comma], decimal w ++ [comma], decimal h ++ [comma]] + 4 := by
    simp only [numbers, tokenLengths, List.map_cons, List.map_nil, List.sum_cons, List.sum_nil,
      List.flatMap_cons, List.flatMap_nil, List.length_append, List.length_cons, List.length_nil]
    omega
  have htake : n.text.take start.length = start := by
    rw [htext, List.append_assoc]
    exact List.take_left' rfl
  have hdrop : substrFrom n.text (start.length + numbers.length) = some finish := by
    rw [htext, substrFrom, if_neg, List.drop_left' (by rw [List.length_append])]
    rw [List.length_append, List.length_append]
    omega
  rw [mergedText, htokens]
  simp only [List.cons_append, List.nil_append, List.take_succ_cons, List.take_zero, List.drop_succ_cons,
    List.drop_zero]
  rw [← hstart, Nat.add_assoc, ← hnumbers, hdrop, htake]
  simp [text, withRectangle, items, start, finish, fields, listed, ascii, comma, blank]

end Notice

/-! ## The loop -/

section Areas

variable {msg queued : Invalidation}

theorem contains_of_covers (hmsg : msg.EdgesFit) (hqueued : queued.EdgesFit)
    (h : msg.covers queued = true) {p : Int × Int} (hp : queued.Contains p) : msg.Contains p := by
  simp only [Invalidation.covers, decide_eq_true_eq, toInt32_eq hmsg.1, toInt32_eq hmsg.2,
    toInt32_eq hqueued.1, toInt32_eq hqueued.2] at h
  obtain ⟨⟨hx, hx'⟩, hy, hy'⟩ := hp
  exact ⟨⟨by omega, by omega⟩, by omega, by omega⟩

/-- The join is the area around both, when nothing wraps around. -/
theorem join_eq (hmsg : msg.EdgesFit) (hqueued : queued.EdgesFit) (hjoin : msg.JoinFits queued) :
    msg.join queued = msg.around queued := by
  dsimp only [Invalidation.join, Invalidation.around]
  rw [toInt32_eq hmsg.1, toInt32_eq hmsg.2, toInt32_eq hqueued.1, toInt32_eq hqueued.2,
    toInt32_eq hjoin.1, toInt32_eq hjoin.2]

theorem contains_around {p : Int × Int} (hp : msg.Contains p ∨ queued.Contains p) :
    (msg.around queued).Contains p := by
  dsimp only [Invalidation.Contains, Invalidation.around]
  rcases hp with ⟨⟨hx, hx'⟩, hy, hy'⟩ | ⟨⟨hx, hx'⟩, hy, hy'⟩
  · exact ⟨⟨by omega, by omega⟩, by omega, by omega⟩
  · exact ⟨⟨by omega, by omega⟩, by omega, by omega⟩

end Areas

/-- A queued invalidation is read from its text, and starts at `int`s. -/
theorem queuedInvalidation_spec {tokens : List Bytes} {msg queued : Invalidation} {it : Bytes}
    (h : queuedInvalidation tokens msg it = some queued) :
    extractRectangle (tokenize it blank) = some queued ∧ IsInt32 queued.x ∧ IsInt32 queued.y := by
  simp only [queuedInvalidation, Option.bind_eq_bind, Option.bind_eq_some_iff, Option.pure_def,
    Option.some.injEq] at h
  obtain ⟨_, -, r, hr, _, -, rfl⟩ := h
  refine ⟨hr, ?_⟩
  unfold extractRectangle at hr
  split at hr
  · split at hr
    · obtain rfl := Option.some.inj hr
      have hzero : IsInt32 0 := by decide
      exact ⟨hzero, hzero⟩
    · split at hr
      · obtain rfl := Option.some.inj hr
        exact ⟨isInt32_toInt32 _, isInt32_toInt32 _⟩
      · cases hr
  · cases hr

/-- What the loop makes of the new area and of the queue is what the sweep does. -/
structure Swept (msg : Invalidation) (queue : List Bytes) (area : Invalidation) (taken left : List Bytes)
    (r : Invalidation × Bool × List Bytes) : Prop where
  area_eq : r.1 = area
  left_eq : r.2.2 = left
  grows : ∀ p, msg.Contains p → area.Contains p
  mem_iff : ∀ m, m ∈ queue ↔ m ∈ taken ∨ m ∈ left
  covered : ∀ m ∈ taken, ∃ queued, extractRectangle (tokenize m blank) = some queued ∧
    ∀ p, queued.Contains p → area.Contains p
  /-- Only a small area is joined with another. -/
  joined : r.2.1 = true → msg.w ≤ 4 * 3840 ∧ IsInt32 area.x ∧ IsInt32 area.y ∧ IsInt32 area.w ∧ IsInt32 area.h
  same : r.2.1 = false → area = msg

theorem Swept.keep {msg area : Invalidation} {it : Bytes} {rest taken left : List Bytes}
    {r : Invalidation × Bool × List Bytes} (h : Swept msg rest area taken left r) :
    Swept msg (it :: rest) area taken (it :: left) (r.1, r.2.1, it :: r.2.2) where
  area_eq := h.area_eq
  left_eq := congrArg (it :: ·) h.left_eq
  grows := h.grows
  mem_iff m := by
    rw [List.mem_cons, List.mem_cons, h.mem_iff]
    exact or_left_comm
  covered := h.covered
  joined := h.joined
  same := h.same

/-- **The loop does what the sweep does**, where that is something. -/
theorem coalesce_spec {tokens : List Bytes} {msg area : Invalidation} {queue taken left : List Bytes}
    (hints : IsInt32 msg.x ∧ IsInt32 msg.y) (h : sweep tokens msg queue = some (area, taken, left)) :
    Swept msg queue area taken left (coalesce tokens msg queue) := by
  induction queue generalizing msg area taken left with
  | nil =>
    cases h
    exact ⟨rfl, rfl, fun p hp => hp, by simp, by simp, by simp [coalesce], fun _ => rfl⟩
  | cons it rest ih =>
    rw [sweep] at h
    rw [coalesce]
    cases hqueued : queuedInvalidation tokens msg it with
    | none =>
      rw [hqueued] at h
      obtain ⟨⟨area, taken, left⟩, hrest, heq⟩ := Option.map_eq_some_iff.mp h
      cases heq
      exact (ih hints hrest).keep
    | some queued =>
      rw [hqueued] at h
      dsimp only at h ⊢
      obtain ⟨hread, hx, hy⟩ := queuedInvalidation_spec hqueued
      split at h
      · rename_i hcovers
        rw [if_pos hcovers]
        split at h
        · rename_i hfits
          obtain ⟨⟨area, taken, left⟩, hrest, heq⟩ := Option.map_eq_some_iff.mp h
          cases heq
          have hloop := ih hints hrest
          refine ⟨hloop.area_eq, hloop.left_eq, hloop.grows, fun m => ?_, ?_, hloop.joined, hloop.same⟩
          · rw [List.mem_cons, List.mem_cons, hloop.mem_iff, or_assoc]
          · refine List.forall_mem_cons.mpr ⟨⟨queued, hread, fun p hp => ?_⟩, hloop.covered⟩
            exact hloop.grows p (contains_of_covers hfits.1 hfits.2 hcovers hp)
        · cases h
      · rename_i hcovers
        rw [if_neg hcovers]
        split at h
        · rename_i hjoins
          rw [if_pos hjoins]
          split at h
          · rename_i hfits
            obtain ⟨⟨area, taken, left⟩, hrest, heq⟩ := Option.map_eq_some_iff.mp h
            cases heq
            obtain ⟨⟨hedges, hqueuedEdges⟩, hjoinFits⟩ := hfits
            have hjoin := join_eq hedges hqueuedEdges hjoinFits
            have hjoinInts : IsInt32 (msg.around queued).x ∧ IsInt32 (msg.around queued).y := by
              obtain ⟨⟨hx1, hx2⟩, hy1, hy2⟩ := hints
              obtain ⟨hqx1, hqx2⟩ := hx
              obtain ⟨hqy1, hqy2⟩ := hy
              dsimp only [Invalidation.around]
              exact ⟨⟨by omega, by omega⟩, by omega, by omega⟩
            have hloop := ih hjoinInts hrest
            rw [hjoin]
            have hgrows : ∀ p, msg.Contains p ∨ queued.Contains p → area.Contains p := fun p hp =>
              hloop.grows p (contains_around hp)
            refine ⟨hloop.area_eq, hloop.left_eq, fun p hp => hgrows p (.inl hp), fun m => ?_, ?_, fun _ => ⟨?_, ?_⟩,
              fun hfalse => by cases hfalse⟩
            · rw [List.mem_cons, List.mem_cons, hloop.mem_iff, or_assoc]
            · exact List.forall_mem_cons.mpr
                ⟨⟨queued, hread, fun p hp => hgrows p (.inr hp)⟩, hloop.covered⟩
            · have hreasonable := (Bool.and_eq_true _ _ ▸ hjoins).2
              rw [Invalidation.isReasonable, decide_eq_true_eq, hjoin] at hreasonable
              dsimp only [Invalidation.around] at hreasonable
              omega
            · cases hmore : (coalesce tokens (msg.around queued) rest).2.1 with
              | true => exact (hloop.joined hmore).2
              | false =>
                rw [hloop.same hmore]
                exact ⟨hjoinInts.1, hjoinInts.2, hjoinFits⟩
          · cases h
        · rename_i hjoins
          rw [if_neg hjoins]
          obtain ⟨⟨area, taken, left⟩, hrest, heq⟩ := Option.map_eq_some_iff.mp h
          cases heq
          exact (ih hints hrest).keep

/-! ## The put -/

/-- A message for a view is never taken for typing. -/
theorem put_impl_of_target {m : Bytes} {target : Target} (h : (tokenize m blank)[1]? = some target.text)
    (queue : List Bytes) : MessageQueue.put_impl queue m = queue ++ [m] := by
  have hne : target.text ≠ ascii "textinput" ∧ target.text ≠ ascii "removetextcontext" := by
    cases target with
    | all => decide
    | view viewId =>
      exact ⟨decimal_ne_word ⟨116, by decide⟩, decimal_ne_word ⟨116, by decide⟩⟩
  simp only [MessageQueue.put_impl, h, Option.some.injEq, hne.1, hne.2, if_false]

namespace Notice

variable (n : Notice)

theorem getElem?_tokenize_text : (tokenize n.text blank)[1]? = some n.target.text := by
  rw [tokenize_text]
  rfl

theorem put_impl_eq {viewIdOf : Bytes → Option Bytes} {queue queue' : List Bytes} {newMsg : Bytes}
    (h : removeCallbackDuplicate viewIdOf n.text queue = (queue', some newMsg)) :
    TileQueue.put_impl viewIdOf queue n.text = (MessageQueue.put_impl queue' newMsg, false) := by
  have hword : getFirstToken n.text = ascii "callback" := by
    rw [text, getFirstToken, List.takeWhile_append_of_pos (List.all_eq_true.mp (by decide))]
    rfl
  dsimp only [TileQueue.put_impl]
  rw [hword, if_neg (by decide), if_neg (by decide), if_pos rfl, h]

theorem removeCallbackDuplicate_text (viewIdOf : Bytes → Option Bytes) (queue : List Bytes) :
    removeCallbackDuplicate viewIdOf n.text queue =
      let r := coalesce (tokenize n.text blank) n.queueReading queue
      (r.2.2, if r.2.1 then mergedText n.text (tokenize n.text blank) r.1 else some n.text) := by
  have htype : (tokenize n.text blank)[2]?.bind i32FromString = some invalidateTiles := by
    rw [tokenize_text]
    change i32FromString (ascii "0") = _
    decide
  dsimp only [removeCallbackDuplicate]
  rw [htype]
  dsimp only
  rw [if_pos rfl, n.extractRectangle_text]

theorem contains_queueReading_iff {p : Int × Int} :
    n.queueReading.Contains p ↔ n.invalidation.Contains p := by
  cases hrect : n.rectangle with
  | none => simp only [queueReading, invalidation, hrect, Invalidation.everything, Invalidation.Contains]
  | some r => simp only [queueReading, hrect]

/-- The message that is put in the end is an invalidation for the same view, part and mode, of the area
that the sweep has come to. -/
theorem exists_put (viewIdOf : Bytes → Option Bytes) {q : TileQueue} {area : Invalidation}
    {taken left : List Bytes} (hspec : Swept n.queueReading q.queue area taken left
      (coalesce (tokenize n.text blank) n.queueReading q.queue)) :
    ∃ new : Notice, q.put viewIdOf n.text = ({ q with queue := left ++ [new.text] }, false) ∧
      new.target = n.target ∧ new.part = n.part ∧ new.invalidation.mode = n.invalidation.mode ∧
      ∀ p, new.invalidation.Contains p ↔ area.Contains p := by
  generalize hr : coalesce (tokenize n.text blank) n.queueReading q.queue = r at hspec
  have hne : n.text ≠ [] := by
    rw [text, ← List.cons_head_tail (l := ascii "callback") (by decide)]
    exact List.cons_ne_nil _ _
  have hput : ∀ newMsg : Notice,
      (if r.2.1 then mergedText n.text (tokenize n.text blank) r.1 else some n.text) =
        some newMsg.text →
      q.put viewIdOf n.text = ({ q with queue := left ++ [newMsg.text] }, false) := by
    intro newMsg hnew
    rw [TileQueue.put, if_neg hne]
    have hremoved := n.removeCallbackDuplicate_text viewIdOf q.queue
    rw [hr] at hremoved
    dsimp only at hremoved
    rw [hnew] at hremoved
    dsimp only
    rw [n.put_impl_eq hremoved, put_impl_of_target newMsg.getElem?_tokenize_text, hspec.left_eq]
  cases hjoined : r.2.1 with
  | false =>
    refine ⟨n, hput n (by rw [hjoined]; rfl), rfl, rfl, rfl, fun p => ?_⟩
    rw [hspec.same hjoined]
    exact n.contains_queueReading_iff.symm
  | true =>
    obtain ⟨hsmall, hints⟩ := hspec.joined hjoined
    cases hrect : n.rectangle with
    | none =>
      -- everything is not small
      simp only [queueReading, hrect, Invalidation.everything, intMax] at hsmall
      omega
    | some r' =>
      obtain ⟨x, y, w, h⟩ := r'
      refine ⟨n.withRectangle area hints, hput _ ?_, rfl, rfl, ?_, fun p => Iff.rfl⟩
      · rw [if_pos hjoined, hspec.area_eq]
        exact n.mergedText_text hrect hints
      · simp only [invalidation, hrect, withRectangle]

theorem isInt32_queueReading : IsInt32 n.queueReading.x ∧ IsInt32 n.queueReading.y := by
  cases hrect : n.rectangle with
  | none =>
    simp only [queueReading, hrect, Invalidation.everything]
    decide
  | some r =>
    simp only [queueReading, hrect, invalidation]
    exact ⟨(n.rectangle_ints r hrect).1, (n.rectangle_ints r hrect).2.1⟩

theorem part_invalidation : n.invalidation.part = n.part := by
  rw [invalidation]
  split <;> rfl

end Notice

/-- Where the loop takes nothing out for a number that is no `int`, no area is lost exactly if what it takes
out is read there as by the session, or is superfluous. -/
theorem areaKept_iff (viewIdOf : Bytes → Option Bytes) (q : TileQueue) (n : Notice) {area : Invalidation}
    {taken left : List Bytes}
    (h : sweepFor n q.queue = some (area, taken, left)) :
    AreaKept viewIdOf q n ↔ TakesOutRightly n area taken left := by
  have hspec := coalesce_spec n.isInt32_queueReading h
  obtain ⟨new, hput, htarget, hpart, hmode, hnew⟩ := n.exists_put viewIdOf hspec
  have hqueue : (q.put viewIdOf n.text).1.queue = left ++ [new.text] := by rw [hput]
  have hread : readInvalidation new.text = some (n.target.text, new.invalidation) := by
    rw [new.readInvalidation_text, htarget]
  have hadded : ∀ p, area.Contains p →
      Invalidated (left ++ [new.text]) n.target.text n.part n.invalidation.mode p := fun p hp =>
    ⟨new.text, List.mem_append_right _ (List.mem_singleton_self _), new.invalidation, hread,
      new.part_invalidation.trans hpart, hmode, (hnew p).mpr hp⟩
  have hstays : ∀ {target part mode p}, Invalidated left target part mode p →
      Invalidated (left ++ [new.text]) target part mode p := by
    rintro target part mode p ⟨m, hm, hinvalidated⟩
    exact ⟨m, List.mem_append_left _ hm, hinvalidated⟩
  constructor
  · intro hkept it hit
    right
    intro target r hr p hp
    have hbefore : Invalidated (q.queue ++ [n.text]) target r.part r.mode p :=
      ⟨it, List.mem_append_left _ ((hspec.mem_iff it).mpr (.inl hit)), r, hr, rfl, rfl, hp⟩
    obtain ⟨m, hm, r', hr', hpart', hmode', hp'⟩ := hqueue ▸ hkept.kept _ _ _ _ hbefore
    rcases List.mem_append.mp hm with hm | hm
    · exact .inl ⟨m, hm, r', hr', hpart', hmode', hp'⟩
    · right
      rw [List.mem_singleton.mp hm, hread] at hr'
      obtain ⟨rfl, rfl⟩ := Prod.mk.inj (Option.some.inj hr')
      exact ⟨⟨rfl, by rw [← hpart', new.part_invalidation, hpart], by rw [← hmode', hmode]⟩,
        (hnew p).mp hp'⟩
  · intro hrightly
    refine ⟨by rw [hput], ?_⟩
    rintro target part mode p ⟨m, hm, r, hr, rfl, rfl, hp⟩
    rw [hqueue]
    rcases List.mem_append.mp hm with hm | hm
    · rcases (hspec.mem_iff m).mp hm with hm | hm
      · rcases hrightly m hm with hsame | hsuperfluous
        · obtain ⟨queued, hqueued, hcovered⟩ := hspec.covered m hm
          rw [ReadRightly, hqueued, hr] at hsame
          obtain ⟨rfl, rfl⟩ := Prod.mk.inj (Option.some.inj hsame)
          exact hadded p (hcovered p hp)
        · rcases hsuperfluous target r hr p hp with hleft | ⟨⟨rfl, hpart', hmode'⟩, hcontains⟩
          · exact hstays hleft
          · rw [hpart', hmode']
            exact hadded p hcontains
      · exact ⟨m, List.mem_append_left _ hm, r, hr, rfl, rfl, hp⟩
    · rw [List.mem_singleton.mp hm, n.readInvalidation_text] at hr
      obtain ⟨rfl, rfl⟩ := Prod.mk.inj (Option.some.inj hr)
      rw [n.part_invalidation]
      exact hadded p (hspec.grows p (n.contains_queueReading_iff.mpr hp))

/-- An area of the first part, for all views. -/
def lineNotice (x w : Int) (hx : IsInt32 x) (hw : IsInt32 w) : Notice :=
  { target := .all
    rectangle := some (x, 1418, w, 275)
    part := 0
    mode := none
    rectangle_ints := fun r hr => by
      obtain rfl := Option.some.inj hr
      exact ⟨hx, (by decide : IsInt32 1418), hw, (by decide : IsInt32 275)⟩
    part_int := by decide
    mode_int := by simp }

/-- Everything of the first part in a mode, for all views. -/
def emptyNotice (mode : Int) (hmode : IsInt32 mode) : Notice :=
  { target := .all
    rectangle := none
    part := 0
    mode := some mode
    rectangle_ints := by simp
    part_int := by decide
    mode_int := fun k hk => by
      obtain rfl := Option.some.inj hk
      exact hmode }

/-- A line that is met by the new one, a word in it, and everything of the master slide. -/
def lineQueue : List Bytes :=
  [(lineNotice 284 11105 (by decide) (by decide)).text, (lineNotice 300 50 (by decide) (by decide)).text,
    (emptyNotice 1 (by decide)).text]

theorem putRightly_lineQueue : PutRightly lineQueue (lineNotice 4299 7090 (by decide) (by decide)) := by
  have hsome : (sweepFor (lineNotice 4299 7090 (by decide) (by decide)) lineQueue).isSome = true := by
    decide +kernel
  have hread : ∀ swept ∈ sweepFor (lineNotice 4299 7090 (by decide) (by decide)) lineQueue,
      ∀ it ∈ swept.2.1, ReadRightly (lineNotice 4299 7090 (by decide) (by decide)) it := by
    decide +kernel
  obtain ⟨⟨area, taken, left⟩, hsweep⟩ := Option.isSome_iff_exists.mp hsome
  exact ⟨area, taken, left, hsweep, fun it hit => .inl (hread _ hsweep it hit)⟩

end Oxool.Kit
