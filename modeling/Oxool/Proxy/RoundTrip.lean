import Oxool.Proxy.Browser

/-!
# Messages over the proxy protocol

What one end writes, the other end reads: from the browser to the server, where each message arrives
with the newline that ends its frame; and from the server to the browser, where a text loses a byte
order mark. The last section is about arbitrary bytes, on which the two parsers differ: the server
leaves its buffer, and the browser may never come to an end.
-/

set_option autoImplicit false

namespace Oxool.Proxy

open Oxool.Http

/-! ## Digits -/

theorem mem_toString16 {n : Nat} {c : Char} (h : c ∈ toString16 n) : ∃ d < 16, c = Nat.digitChar d := by
  rw [← List.map_id (toString16 n)] at h
  exact mem_toDigits id (by decide) n c h

/-- What holds of the sixteen digits holds of the characters of a number. -/
theorem forall_toString16 {P : Char → Prop} (h : ∀ d : Fin 16, P (Nat.digitChar d)) (n : Nat) :
    ∀ c ∈ toString16 n, P c := by
  intro c hc
  obtain ⟨d, hd, rfl⟩ := mem_toString16 hc
  exact h ⟨d, hd⟩

theorem utf8_append (s t : List Char) : utf8 (s ++ t) = utf8 s ++ utf8 t := List.flatMap_append

theorem utf8_of_single {s : List Char} (h : ∀ c ∈ s, String.utf8EncodeChar c = [UInt8.ofNat c.toNat]) :
    utf8 s = s.map fun c => UInt8.ofNat c.toNat := by
  induction s with
  | nil => rfl
  | cons c s ih =>
    have hs := ih fun c hc => h c (List.mem_cons_of_mem _ hc)
    rw [utf8, List.flatMap_cons, h c List.mem_cons_self, ← utf8, hs]
    rfl

theorem utf8_toString16 (n : Nat) : utf8 (toString16 n) = hexBytes n :=
  utf8_of_single (forall_toString16 (by decide) n)

theorem stripBom_toString16 (n : Nat) : stripBom (toString16 n) = toString16 n := by
  have hne : ∀ c ∈ toString16 n, c ≠ bom := forall_toString16 (by decide) n
  cases hs : toString16 n with
  | nil => rfl
  | cons c s => rw [stripBom, if_neg (hne c (by rw [hs]; exact List.mem_cons_self))]

theorem dropCharHexMark_digits {s : List Char} (h : ∀ c ∈ s, c ≠ 'x' ∧ c ≠ 'X') :
    dropCharHexMark s = s := by
  unfold dropCharHexMark
  split
  · exact absurd rfl (h 'x' (by simp)).1
  · exact absurd rfl (h 'X' (by simp)).2
  · rfl

/-- **A number is read as it was written.** -/
theorem parseInt_toString16 (n : Nat) : parseInt (toString16 n) = some (n : Int) := by
  have hblank : ∀ c ∈ toString16 n, isStrWhiteSpace c = false := forall_toString16 (by decide) n
  have hsign : ∀ c ∈ toString16 n, c ≠ '-' ∧ c ≠ '+' := forall_toString16 (by decide) n
  have hmark : ∀ c ∈ toString16 n, c ≠ 'x' ∧ c ≠ 'X' := forall_toString16 (by decide) n
  have hdigit : ∀ c ∈ toString16 n, (hexDigitOfChar c).isSome = true := forall_toString16 (by decide) n
  have hvalue : readDigits 16 (fun c => (hexDigitOfChar c).getD 0) (toString16 n) = n := by
    have hread : readDigits 16 (fun c => (hexDigitOfChar c).getD 0) ((Nat.toDigits 16 n).map id) = n :=
      readDigits_toDigits id (by decide) (by decide) n
    rwa [List.map_id] at hread
  obtain ⟨c, s, hs⟩ := List.exists_cons_of_ne_nil (l := toString16 n) Nat.toDigits_ne_nil
  rw [hs] at hblank hsign hmark hdigit hvalue ⊢
  have hskip : (c :: s).dropWhile isStrWhiteSpace = c :: s := by
    rw [List.dropWhile_cons, hblank c List.mem_cons_self]
    rfl
  have hplain : splitCharSign (c :: s) = (false, c :: s) := by
    unfold splitCharSign
    split
    · next h => exact absurd (List.cons.inj h).1 (hsign c List.mem_cons_self).1
    · next h => exact absurd (List.cons.inj h).1 (hsign c List.mem_cons_self).2
    · rfl
  have hall : (c :: s).takeWhile (fun c => (hexDigitOfChar c).isSome) = c :: s :=
    List.takeWhile_eq_self_iff.mpr hdigit
  rw [parseInt, hskip, hplain]
  dsimp only
  rw [dropCharHexMark_digits hmark, hall, if_neg (List.cons_ne_nil c s), hvalue]
  rfl

/-! ## From the browser to the server -/

/-- Some frames, numbered from `k` on; each is text or binary, with its payload. -/
def frames : Nat → List (Bool × Bytes) → Bytes
  | _, [] => []
  | k, (text, payload) :: ms => message text payload k ++ frames (k + 1) ms

theorem frames_append (k : Nat) (ms ms' : List (Bool × Bytes)) :
    frames k (ms ++ ms') = frames k ms ++ frames (k + ms.length) ms' := by
  induction ms generalizing k with
  | nil => rfl
  | cons m ms ih =>
    obtain ⟨text, payload⟩ := m
    rw [List.cons_append, frames, frames, ih, List.append_assoc, List.length_cons]
    congr 3
    omega

theorem length_le_frames (k : Nat) (ms : List (Bool × Bytes)) : ms.length ≤ (frames k ms).length := by
  induction ms generalizing k with
  | nil => exact Nat.zero_le _
  | cons m ms ih =>
    obtain ⟨text, payload⟩ := m
    have h := ih (k + 1)
    rw [frames, List.length_append, message_eq]
    simp only [List.length_cons]
    omega

/-- **The server reads some frames**, each payload with the newline behind it. -/
theorem parseLoop_frames {ms : List (Bool × Bytes)} (hms : ∀ m ∈ ms, m.2.length < 2 ^ 63) {fuel : Nat}
    (k : Nat) (hfuel : ms.length ≤ fuel) (inSerial : Nat) (handled : List Bytes) :
    ∃ serial, parseLoop fuel (frames k ms) inSerial handled =
      .done true [] serial (handled ++ ms.map fun m => m.2 ++ [lf]) := by
  induction ms generalizing fuel k inSerial handled with
  | nil =>
    refine ⟨inSerial, ?_⟩
    rw [List.map_nil, List.append_nil]
    cases fuel <;> rfl
  | cons m ms ih =>
    obtain ⟨text, payload⟩ := m
    obtain ⟨fuel, rfl⟩ : ∃ n, fuel = n + 1 := ⟨fuel - 1, by rw [List.length_cons] at hfuel; omega⟩
    have hm : payload.length < 2 ^ 63 := hms (text, payload) List.mem_cons_self
    obtain ⟨serial, hserial⟩ := ih (fun m hm => hms m (List.mem_cons_of_mem _ hm)) (k + 1)
      (Nat.le_of_succ_le_succ hfuel)
      (toUInt64 (strtoll (ascii "0x" ++ hexBytes k))) (handled ++ [payload ++ [lf]])
    refine ⟨serial, ?_⟩
    rw [frames, parseLoop_message hm, hserial, List.map_cons, List.append_assoc]
    rfl

/-- The messages that were sent. -/
def sent : List Action → List Text
  | [] => []
  | .send msg :: acts => msg :: sent acts
  | .doSend :: acts => sent acts

/-- A message from the browser is binary. -/
def Text.frame (t : Text) : Bool × Bytes := (false, utf8 t.chars)

theorem utf8_send (s : ProxySocket) (t : Text) :
    utf8 (s.send t.chars).sendQueue = utf8 s.sendQueue ++ frames s.outSerial [t.frame] := by
  have hmark : utf8 "B0x".toList = typeBinary :: ascii "0x" := by decide
  have hmark' : utf8 "0x".toList = ascii "0x" := by decide
  have hlf : utf8 ['\n'] = [lf] := by decide
  rw [ProxySocket.send]
  simp only [utf8_append, utf8_toString16, hmark, hmark', hlf]
  simp only [frames, Text.frame, message, List.append_assoc, List.append_nil, List.cons_append,
    List.nil_append, Bool.false_eq_true, if_false]

theorem sent_short (ts : List Text) : ∀ m ∈ ts.map Text.frame, m.2.length < 2 ^ 63 := by
  intro m hm
  obtain ⟨t, -, rfl⟩ := List.mem_map.mp hm
  exact t.short

/-- A post of the messages in the queue. -/
theorem parseEmitIncoming_queue {queue : List Char} {k : Nat} {pending : List Text}
    (hqueue : utf8 queue = frames k (pending.map Text.frame)) (serial : Nat) :
    ∃ serial', parseEmitIncoming serial (utf8 queue) =
      .done true [] serial' (pending.map fun t => utf8 t.chars ++ [lf]) := by
  obtain ⟨serial', hparse⟩ := parseLoop_frames (sent_short pending) k
    (length_le_frames k (pending.map Text.frame)) serial []
  refine ⟨serial', ?_⟩
  rw [parseEmitIncoming, hqueue, hparse, List.nil_append, List.map_map]
  rfl

/-- **What arrives at the server**, however the messages were collected into posts: induction on the
actions, with the messages that are still in the queue. -/
theorem handleRequests_run (acts : List Action) {s : ProxySocket} {k : Nat} {pending : List Text}
    (hqueue : utf8 s.sendQueue = frames k (pending.map Text.frame))
    (hserial : s.outSerial = k + pending.length) :
    ∃ bodies, ((acts ++ [Action.doSend]).foldl Action.run s).posted = s.posted ++ bodies ∧
      ∀ serial, ∃ serial', handleRequests serial bodies =
        some (serial', (pending ++ sent acts).map fun t => utf8 t.chars ++ [lf]) := by
  induction acts generalizing s k pending with
  | nil =>
    refine ⟨[utf8 s.sendQueue], rfl, fun serial => ?_⟩
    obtain ⟨serial', hparse⟩ := parseEmitIncoming_queue hqueue serial
    refine ⟨serial', ?_⟩
    rw [handleRequests, hparse, sent, List.append_nil]
    simp [handleRequests]
  | cons act acts ih =>
    cases act with
    | send t =>
      have hqueue' : utf8 (s.send t.chars).sendQueue = frames k ((pending ++ [t]).map Text.frame) := by
        rw [utf8_send, hqueue, hserial, List.map_append, frames_append, List.length_map]
        rfl
      have hserial' : (s.send t.chars).outSerial = k + (pending ++ [t]).length := by
        rw [List.length_append, ← Nat.add_assoc, ← hserial]
        rfl
      obtain ⟨bodies, hbodies, hhandled⟩ := ih hqueue' hserial'
      refine ⟨bodies, hbodies, ?_⟩
      rw [sent, List.append_cons]
      exact hhandled
    | doSend =>
      have hqueue' : utf8 s.doSend.sendQueue = frames s.outSerial (([] : List Text).map Text.frame) := rfl
      obtain ⟨bodies, hbodies, hhandled⟩ := ih hqueue' rfl
      refine ⟨utf8 s.sendQueue :: bodies, ?_, fun serial => ?_⟩
      · rw [List.cons_append, List.foldl_cons, Action.run, hbodies, ProxySocket.doSend,
          List.append_assoc]
        rfl
      · obtain ⟨serial₁, hparse⟩ := parseEmitIncoming_queue hqueue serial
        obtain ⟨serial₂, hrest⟩ := hhandled serial₁
        refine ⟨serial₂, ?_⟩
        rw [handleRequests, hparse]
        dsimp only
        rw [hrest, Option.map_some, List.nil_append, sent, List.map_append]

/-! ## From the server to the browser -/

section Browser

variable (D : TextDecoder)

theorem getElem?_of_drop {arr : Bytes} {i : Nat} {b : UInt8} {rest : Bytes} (h : arr.drop i = b :: rest) :
    arr[i]? = some b := by
  rw [← List.head?_drop, h]
  rfl

theorem drop_of_drop {arr : Bytes} {i : Nat} {line rest : Bytes} (h : arr.drop i = line ++ rest) :
    arr.drop (i + line.length) = rest := by
  rw [← List.drop_drop, h, List.drop_left]

theorem newlineFrom_of_drop {arr line rest : Bytes} {i : Nat} (h : arr.drop i = line ++ lf :: rest)
    (hline : lf ∉ line) : newlineFrom arr i = some (i + line.length) := by
  have hnone : line.findIdx? (· == lf) = none := by
    rw [List.findIdx?_eq_none_iff]
    intro b hb
    exact beq_false_of_ne fun heq => hline (heq ▸ hb)
  rw [newlineFrom, h, List.findIdx?_append, hnone]
  simp [List.findIdx?_cons, Nat.add_comm]

/-- The line that ends where a newline was found. -/
theorem drop_of_newlineFrom {arr : Bytes} {i nl : Nat} (h : newlineFrom arr i = some nl) :
    ∃ line rest, arr.drop i = line ++ lf :: rest ∧ lf ∉ line ∧ nl = i + line.length := by
  obtain ⟨n, hn, rfl⟩ := Option.map_eq_some_iff.mp h
  obtain ⟨hlt, hlf, hbefore⟩ := List.findIdx?_eq_some_iff_getElem.mp hn
  refine ⟨(arr.drop i).take n, (arr.drop i).drop (n + 1), ?_, ?_, ?_⟩
  · rw [← beq_iff_eq.mp hlf, ← List.drop_eq_getElem_cons hlt, List.take_append_drop]
  · intro hmem
    obtain ⟨j, hj, hget⟩ := List.mem_iff_getElem.mp hmem
    rw [List.length_take] at hj
    rw [List.getElem_take] at hget
    exact hbefore j (by omega) (beq_iff_eq.mpr hget)
  · rw [List.length_take, Nat.min_eq_left (Nat.le_of_lt hlt), Nat.add_comm]

theorem slice_of_drop {arr line rest : Bytes} {i : Nat} (h : arr.drop i = line ++ rest) :
    slice arr i ((i + line.length : Nat) : Int) = line := by
  have hlength : arr.length - i = line.length + rest.length := by
    rw [← List.length_drop, h, List.length_append]
  have hstop : (if ((i + line.length : Nat) : Int) < 0 then
      max ((arr.length : Int) + ((i + line.length : Nat) : Int)) 0
      else min ((i + line.length : Nat) : Int) arr.length).toNat - i = line.length := by
    rw [if_neg (by omega)]
    omega
  rw [slice, hstop, h, List.take_left]

/-- **A number on a line of its own**, after `0x`: the browser finds it, within the array. -/
theorem number_at (pre rest : Bytes) (n : Nat) {arr : Bytes}
    (harr : arr = pre ++ (ascii "0x" ++ (hexBytes n ++ lf :: rest))) :
    hasPreamble arr pre.length = true ∧ preambleWithin arr pre.length = true ∧
      newlineFrom arr (pre.length + 2) = some (pre.length + 2 + (hexBytes n).length) ∧
      parseInt (D.decode (slice arr (pre.length + 2) (pre.length + 2 + (hexBytes n).length : Nat))) =
        some (n : Int) := by
  have hzero : arr[pre.length]? = some 48 := by
    rw [harr, List.getElem?_append_right (Nat.le_refl _), Nat.sub_self]
    rfl
  have hlen : (pre ++ ascii "0x").length = pre.length + 2 := List.length_append
  have hin : pre.length < arr.length := (List.getElem?_eq_some_iff.mp hzero).1
  have hnum : lf ∉ hexBytes n := fun h => absurd (isHexDigit_of_mem_hexBytes h) (by decide)
  have hdrop : arr.drop (pre.length + 2) = hexBytes n ++ lf :: rest := by
    rw [← hlen, harr, ← List.append_assoc, List.drop_left]
  have hline := newlineFrom_of_drop hdrop hnum
  have hslice := slice_of_drop hdrop
  refine ⟨?_, ?_, hline, ?_⟩
  · rw [hasPreamble, hzero]
    rfl
  · rw [preambleWithin, hzero]
    simpa using hin
  · rw [hslice, ← utf8_toString16, D.decode_utf8, stripBom_toString16, parseInt_toString16]

/-- What a message is delivered as. -/
def delivered (m : Bool × Bytes) : Data := if m.1 then .text (D.decode m.2) else .binary m.2

/-- **A frame is one round.** -/
theorem readFrame_message (pre rest payload : Bytes) (text : Bool) (k : Nat) {arr : Bytes}
    (harr : arr = pre ++ (message text payload k ++ rest)) :
    ∃ start, readFrame D arr pre.length =
        .frame (if text then typeText else typeBinary) (some (k : Int)) start
          (some (payload.length : Int)) true ∧
      start + payload.length + 1 = pre.length + (message text payload k).length ∧
      frameData D arr (if text then typeText else typeBinary) start (some (payload.length : Int)) =
        delivered D (text, payload) := by
  have hsplit : message text payload k ++ rest = (if text then typeText else typeBinary) ::
      (ascii "0x" ++ (hexBytes k ++ lf :: (ascii "0x" ++ (hexBytes payload.length ++
        lf :: (payload ++ lf :: rest))))) := by
    rw [message_eq]
    simp only [List.append_assoc, List.cons_append, List.nil_append]
  have hmsg : (message text payload k).length = 3 + (hexBytes k).length + 1 +
      (2 + (hexBytes payload.length).length + 1) + (payload.length + 1) := by
    rw [message_eq]
    simp only [List.length_cons, List.length_append, List.length_nil]
    have h2 : (ascii "0x").length = 2 := rfl
    omega
  rw [hsplit] at harr
  generalize htype : (if text then typeText else typeBinary) = type at *
  -- the array up to the serial number, up to the size, and up to the payload
  have hserial : arr = (pre ++ [type]) ++ (ascii "0x" ++ (hexBytes k ++ lf :: (ascii "0x" ++
      (hexBytes payload.length ++ lf :: (payload ++ lf :: rest))))) := by
    rw [harr, List.append_assoc]
    rfl
  have hsize : arr = (pre ++ type :: (ascii "0x" ++ (hexBytes k ++ [lf]))) ++ (ascii "0x" ++
      (hexBytes payload.length ++ lf :: (payload ++ lf :: rest))) := by
    rw [harr]
    simp only [List.append_assoc, List.cons_append, List.nil_append]
  have hdata : arr = (pre ++ type :: (ascii "0x" ++ (hexBytes k ++ lf :: (ascii "0x" ++
      (hexBytes payload.length ++ [lf]))))) ++ (payload ++ lf :: rest) := by
    rw [harr]
    simp only [List.append_assoc, List.cons_append, List.nil_append]
  have hkind : ¬ (type ≠ typeText ∧ type ≠ typeBinary) := by
    rw [← htype]
    cases text with
    | true => exact fun h => h.1 rfl
    | false => exact fun h => h.2 rfl
  have hleft : ¬ (arr.length : Int) - (pre.length : Int) < 4 := by
    have hpos : 0 < (hexBytes k).length := List.length_pos_iff.mpr (hexBytes_ne_nil k)
    rw [harr]
    simp only [List.length_append, List.length_cons]
    have h2 : (ascii "0x").length = 2 := rfl
    omega
  have hat : byteAt arr pre.length = some type := by
    rw [byteAt, if_pos (by omega), Int.toNat_natCast, harr, List.getElem?_append_right (Nat.le_refl _),
      Nat.sub_self]
    rfl
  have hlen₁ : (pre ++ [type]).length = pre.length + 1 := List.length_append
  have hlen₂ : (pre ++ type :: (ascii "0x" ++ (hexBytes k ++ [lf]))).length =
      pre.length + 1 + 2 + (hexBytes k).length + 1 := by
    simp only [List.length_append, List.length_cons, List.length_nil]
    have h2 : (ascii "0x").length = 2 := rfl
    omega
  have hlen₃ : (pre ++ type :: (ascii "0x" ++ (hexBytes k ++ lf :: (ascii "0x" ++
      (hexBytes payload.length ++ [lf]))))).length =
      pre.length + 1 + 2 + (hexBytes k).length + 1 + 2 + (hexBytes payload.length).length + 1 := by
    simp only [List.length_append, List.length_cons, List.length_nil]
    have h2 : (ascii "0x").length = 2 := rfl
    omega
  obtain ⟨hpre₁, -, hline₁, hserialNo⟩ := number_at D _ _ _ hserial
  obtain ⟨hpre₂, hwithin, hline₂, hsizeNo⟩ := number_at D _ _ _ hsize
  rw [hlen₁] at hpre₁ hline₁ hserialNo
  rw [hlen₂] at hpre₂ hwithin hline₂ hsizeNo
  refine ⟨pre.length + 1 + 2 + (hexBytes k).length + 1 + 2 + (hexBytes payload.length).length + 1, ?_, ?_, ?_⟩
  · rw [readFrame, if_neg hleft, hat]
    dsimp only
    rw [if_neg hkind, Int.toNat_natCast, hpre₁, hline₁]
    dsimp only
    rw [hserialNo, readSize, hpre₂, hline₂]
    dsimp only
    rw [hsizeNo, hwithin]
    rfl
  · rw [hmsg]
    omega
  · have hpiece := slice_of_drop (hdata ▸ List.drop_left : arr.drop _ = payload ++ lf :: rest)
    rw [hlen₃, Nat.cast_add] at hpiece
    rw [frameData, hpiece, delivered, ← htype]
    cases text with
    | true => rfl
    | false => rfl

/-- **The browser reads some frames.** -/
theorem incomingLoop_frames (ms : List (Bool × Bytes)) {fuel : Nat} (hfuel : ms.length < fuel) (k : Nat)
    (pre : Bytes) {arr : Bytes} (harr : arr = pre ++ frames k ms) (inSerial : Option Int)
    (messages : List Data) :
    ∃ serial, incomingLoop D arr fuel pre.length inSerial messages true =
      some (.stops serial (messages ++ ms.map (delivered D)) true) := by
  induction ms generalizing fuel k pre inSerial messages with
  | nil =>
    obtain ⟨fuel, rfl⟩ : ∃ n, fuel = n + 1 := ⟨fuel - 1, by omega⟩
    have hend : (arr.length : Int) - (pre.length : Int) < 4 := by
      rw [harr, frames, List.append_nil]
      omega
    refine ⟨inSerial, ?_⟩
    rw [incomingLoop, readFrame, if_pos hend, List.map_nil, List.append_nil]
    rfl
  | cons m ms ih =>
    obtain ⟨text, payload⟩ := m
    rw [List.length_cons] at hfuel
    obtain ⟨fuel, rfl⟩ : ∃ n, fuel = n + 1 := ⟨fuel - 1, by omega⟩
    obtain ⟨start, hframe, hnext, hdata⟩ := readFrame_message D pre (frames (k + 1) ms) payload text k harr
    have harr' : arr = (pre ++ message text payload k) ++ frames (k + 1) ms := by
      rw [harr, frames, List.append_assoc]
    obtain ⟨serial, hrest⟩ := ih (Nat.lt_of_succ_lt_succ hfuel) (k + 1) _ harr' (some (k : Int))
      (messages ++ [delivered D (text, payload)])
    refine ⟨serial, ?_⟩
    have hpos : (start : Int) + (payload.length : Int) + 1 =
        ((pre ++ message text payload k).length : Int) := by
      rw [List.length_append, ← hnext]
      omega
    rw [incomingLoop, hframe]
    dsimp only
    rw [hdata, hpos, Bool.and_self, hrest, List.map_cons, List.append_assoc]
    rfl

/-- Some responses, each with a batch of messages. -/
def responses : Nat → List (List (Bool × Bytes)) → List Bytes
  | _, [] => []
  | k, batch :: batches => frames k batch :: responses (k + batch.length) batches

/-- The messages that `parseIncomingArray` delivers from some responses. -/
def receive (fuel : Nat) : Option Int → List Bytes → Option (List Data)
  | _, [] => some []
  | inSerial, arr :: arrs =>
    match incomingLoop D arr fuel 0 inSerial [] true with
    | some (.stops inSerial messages _) => (receive fuel inSerial arrs).map (messages ++ ·)
    | _ => none

theorem receive_responses (batches : List (List (Bool × Bytes))) {fuel : Nat}
    (hfuel : ∀ batch ∈ batches, batch.length < fuel) (k : Nat) (inSerial : Option Int) :
    receive D fuel inSerial (responses k batches) = some (batches.flatten.map (delivered D)) := by
  induction batches generalizing k inSerial with
  | nil => rfl
  | cons batch batches ih =>
    obtain ⟨serial, hbatch⟩ := incomingLoop_frames D batch (hfuel batch List.mem_cons_self) k [] rfl
      inSerial []
    rw [responses, receive]
    have hzero : ((([] : Bytes).length : Nat) : Int) = 0 := rfl
    rw [hzero, List.nil_append] at hbatch
    rw [hbatch]
    dsimp only
    rw [ih (fun b hb => hfuel b (List.mem_cons_of_mem _ hb)), Option.map_some, List.flatten_cons,
      List.map_append, List.nil_append]

/-- A text comes out as it went in exactly if it is UTF-8 without a byte order mark. -/
theorem utf8_decode_iff (p : Bytes) :
    utf8 (D.decode p) = p ↔ ∃ s, p = utf8 s ∧ s.head? ≠ some bom := by
  constructor
  · intro h
    refine ⟨D.decode p, h.symm, ?_⟩
    have hstrip : D.decode p = stripBom (D.decode p) := by
      conv_lhs => rw [← h]
      exact D.decode_utf8 (D.decode p)
    intro hbom
    cases hs : D.decode p with
    | nil => rw [hs] at hbom; exact absurd hbom (by simp)
    | cons c s =>
      rw [hs, List.head?_cons, Option.some.injEq] at hbom
      rw [hs, stripBom, if_pos hbom] at hstrip
      exact absurd (congrArg List.length hstrip) (by simp)
  · rintro ⟨s, rfl, hs⟩
    have hstrip : stripBom s = s := by
      cases s with
      | nil => rfl
      | cons c s => rw [stripBom, if_neg fun h => hs (by rw [h]; rfl)]
    rw [D.decode_utf8, hstrip]

end Browser

/-! ## Any input -/

section Within

variable (D : TextDecoder) (arr : Bytes)

/-- What passes for `0x`: one of the two bytes is right. -/
def IsMark (a b : UInt8) : Prop := a = 48 ∨ b = 120

/-- The indices from which the browser comes to an end inside the array. There are fewer than four bytes
left, or the bytes from there on are refused before the end of the array is passed: for their type, for
want of a mark behind the type or behind the serial line, or for a size that is no number. Or they are
the head of a frame, and where its size leads to is such an index again. What is not here is a frame
whose serial line or size line has no end or whose second mark is cut off, an index before the array,
and a size that leads back to where it came from. -/
inductive Readable : Int → Prop
  | fewLeft {i : Int} (h : (arr.length : Int) - i < 4) : Readable i
  | noType {i : Nat} {type : UInt8} {rest : Bytes} (h : arr.drop i = type :: rest) (hText : type ≠ typeText)
      (hBinary : type ≠ typeBinary) : Readable i
  | noSerial {i : Nat} {type a b : UInt8} {rest : Bytes} (h : arr.drop i = type :: a :: b :: rest)
      (hmark : ¬ IsMark a b) : Readable i
  | noSize {i : Nat} {type a b c d : UInt8} {serialLine rest : Bytes}
      (h : arr.drop i = type :: a :: b :: (serialLine ++ lf :: c :: d :: rest)) (hserial : lf ∉ serialLine)
      (hmark : ¬ IsMark c d) : Readable i
  | noNumber {i : Nat} {type a b c d : UInt8} {serialLine sizeLine rest : Bytes}
      (h : arr.drop i = type :: a :: b :: (serialLine ++ lf :: c :: d :: (sizeLine ++ lf :: rest)))
      (hserial : lf ∉ serialLine) (hsize : lf ∉ sizeLine) (hnan : parseInt (D.decode sizeLine) = none) :
      Readable i
  | frame {i : Nat} {type a b c d : UInt8} {serialLine sizeLine rest : Bytes} {size : Int}
      (h : arr.drop i = type :: a :: b :: (serialLine ++ lf :: c :: d :: (sizeLine ++ lf :: rest)))
      (hserial : lf ∉ serialLine) (hsize : lf ∉ sizeLine)
      (hnumber : parseInt (D.decode sizeLine) = some size)
      (more : Readable ((i + (serialLine.length + sizeLine.length + 7) : Nat) + size + 1)) : Readable i

variable {arr}

theorem hasPreamble_iff {i : Nat} {a b : UInt8} {rest : Bytes} (h : arr.drop i = a :: b :: rest) :
    hasPreamble arr i = true ↔ IsMark a b := by
  have ha := getElem?_of_drop h
  have hb := getElem?_of_drop (@drop_of_drop _ _ [a] _ h)
  rw [List.length_singleton] at hb
  simp [hasPreamble, ha, hb, IsMark]

/-- The second mark is looked at within the array if both its bytes are there. -/
theorem preambleWithin_of_drop {i : Nat} {a b : UInt8} {rest : Bytes} (h : arr.drop i = a :: b :: rest) :
    preambleWithin arr i = true := by
  have hlength := congrArg List.length h
  simp only [List.length_drop, List.length_cons] at hlength
  rw [preambleWithin, decide_eq_true (show i < arr.length by omega),
    decide_eq_true (show i + 1 < arr.length by omega), Bool.or_true]
  rfl

/-- The first byte of a frame with four bytes, and the test of its mark. -/
theorem readFrame_of_drop {i : Nat} {type a b : UInt8} {rest : Bytes}
    (h : arr.drop i = type :: a :: b :: rest) (hleft : ¬ (arr.length : Int) - (i : Int) < 4) :
    readFrame D arr i =
      if type ≠ typeText ∧ type ≠ typeBinary then .stop true
      else if !hasPreamble arr (i + 1) then .stop true
      else
        match newlineFrom arr (i + 3) with
        | none => .spin
        | some nl => readSize D arr type (parseInt (D.decode (slice arr (i + 3) nl))) (nl + 1) := by
  have hbyte : byteAt arr i = some type := by
    simp [byteAt, getElem?_of_drop h]
  unfold readFrame
  rw [if_neg hleft]
  generalize byteAt arr i = byte at hbyte ⊢
  cases hbyte
  rfl

/-- A round on the head of a frame: it stops inside, or comes to the size. -/
theorem readFrame_head {i : Nat} {type a b : UInt8} {serialLine tail : Bytes}
    (h : arr.drop i = type :: a :: b :: (serialLine ++ lf :: tail)) (hserial : lf ∉ serialLine) :
    readFrame D arr i = .stop true ∨ ∃ serial,
      readFrame D arr i = readSize D arr type serial (i + (serialLine.length + 4)) := by
  by_cases hleft : (arr.length : Int) - (i : Int) < 4
  · exact .inl (by rw [readFrame, if_pos hleft])
  · have hline := newlineFrom_of_drop (@drop_of_drop _ _ [type, a, b] _ h) hserial
    rw [show i + [type, a, b].length = i + 3 from rfl] at hline
    rw [readFrame_of_drop D h hleft, hline]
    split
    · exact .inl rfl
    · split
      · exact .inl rfl
      · right
        rw [show i + (serialLine.length + 4) = i + 3 + serialLine.length + 1 by omega]
        exact ⟨_, rfl⟩

theorem drop_size {i : Nat} {type a b : UInt8} {serialLine tail : Bytes}
    (h : arr.drop i = type :: a :: b :: (serialLine ++ lf :: tail)) :
    arr.drop (i + (serialLine.length + 4)) = tail := by
  have hsplit : arr.drop i = (type :: a :: b :: (serialLine ++ [lf])) ++ tail := by
    rw [h]
    simp
  have hdrop := drop_of_drop hsplit
  rwa [List.length_cons, List.length_cons, List.length_cons, List.length_append] at hdrop

/-- A round on a whole head. -/
theorem readFrame_size {i : Nat} {type a b c d : UInt8} {serialLine sizeLine rest : Bytes}
    (h : arr.drop i = type :: a :: b :: (serialLine ++ lf :: c :: d :: (sizeLine ++ lf :: rest)))
    (hserial : lf ∉ serialLine) (hsize : lf ∉ sizeLine) :
    readFrame D arr i = .stop true ∨ ∃ serial, readFrame D arr i =
      .frame type serial (i + (serialLine.length + sizeLine.length + 7)) (parseInt (D.decode sizeLine))
        true := by
  have hmark := drop_size h
  have hdrop := @drop_of_drop _ _ [c, d] _ hmark
  rw [show [c, d].length = 2 from rfl] at hdrop
  have hline := newlineFrom_of_drop hdrop hsize
  have hslice := slice_of_drop hdrop
  rcases readFrame_head D h hserial with hstop | ⟨serial, hread⟩
  · exact .inl hstop
  · rw [hread, readSize, preambleWithin_of_drop hmark, hline]
    split
    · exact .inl rfl
    · refine .inr ⟨serial, ?_⟩
      dsimp only
      rw [hslice]
      congr 1
      omega

/-- An index that left the array is not forgotten. -/
theorem incomingLoop_outside {fuel : Nat} {i : Int} {inSerial serial : Option Int}
    {messages all : List Data} {within : Bool}
    (h : incomingLoop D arr fuel i inSerial messages false = some (.stops serial all within)) :
    within = false := by
  induction fuel generalizing i inSerial messages with
  | zero => exact absurd h (by simp [incomingLoop])
  | succ fuel ih =>
    rw [incomingLoop] at h
    cases hframe : readFrame D arr i with
    | stop inside =>
      rw [hframe] at h
      simp only [Bool.false_and, Option.some.injEq, Ended.stops.injEq] at h
      exact h.2.2.symm
    | spin =>
      rw [hframe] at h
      exact absurd h (by simp)
    | frame type serial start size inside =>
      rw [hframe] at h
      cases size with
      | none =>
        simp only [Bool.false_and, Option.some.injEq, Ended.stops.injEq] at h
        exact h.2.2.symm
      | some size => exact ih h

/-- A second mark that was refused within the array. -/
theorem drop_of_readSize_stop {type : UInt8} {serial : Option Int} {j : Nat}
    (h : readSize D arr type serial j = .stop true) :
    ∃ c d rest, arr.drop j = c :: d :: rest ∧ ¬ IsMark c d := by
  rw [readSize] at h
  cases hmark : hasPreamble arr j with
  | true =>
    rw [hmark, if_neg (by decide)] at h
    split at h <;> cases h
  | false =>
    rw [hmark, if_pos (by decide), Round.stop.injEq, preambleWithin, Bool.and_eq_true, Bool.or_eq_true,
      decide_eq_true_iff, decide_eq_true_iff] at h
    obtain ⟨hj, hsecond⟩ := h
    have hzero : ¬ (arr[j]? == some 48) = true := by
      intro hzero
      rw [hasPreamble, hzero] at hmark
      cases hmark
    have hj' : j + 1 < arr.length := hsecond.resolve_left hzero
    have hdrop : arr.drop j = arr[j] :: arr[j + 1] :: arr.drop (j + 2) := by
      rw [List.drop_eq_getElem_cons hj, List.drop_eq_getElem_cons hj']
    refine ⟨_, _, _, hdrop, fun his => ?_⟩
    rw [(hasPreamble_iff hdrop).mpr his] at hmark
    cases hmark

/-- A size that was read from a line within the array. -/
theorem drop_of_readSize_frame {type type' : UInt8} {serial serial' : Option Int} {j start : Nat}
    {size : Option Int} {inside : Bool}
    (h : readSize D arr type serial j = .frame type' serial' start size inside) :
    ∃ c d sizeLine rest, arr.drop j = c :: d :: (sizeLine ++ lf :: rest) ∧ lf ∉ sizeLine ∧
      start = j + (sizeLine.length + 3) ∧ size = parseInt (D.decode sizeLine) := by
  rw [readSize] at h
  split at h
  · cases h
  · split at h
    · cases h
    · rename_i nl hnl
      obtain ⟨sizeLine, rest, hdrop, hsize, rfl⟩ := drop_of_newlineFrom hnl
      obtain ⟨-, -, rfl, rfl, -⟩ := Round.frame.inj h
      have hlength := congrArg List.length hdrop
      rw [List.length_drop, List.length_append, List.length_cons] at hlength
      have hj : j + 1 < arr.length := by omega
      refine ⟨arr[j], arr[j + 1], sizeLine, rest, ?_, hsize, by omega, ?_⟩
      · rw [List.drop_eq_getElem_cons (by omega), List.drop_eq_getElem_cons hj, hdrop]
      · rw [slice_of_drop hdrop]

/-- A round that does not stop at once is one on the head of a frame with a serial line. -/
theorem readFrame_inv (i : Int) :
    readFrame D arr i = .spin ∨ readFrame D arr i = .stop false ∨
      (readFrame D arr i = .stop true ∧ Readable D arr i) ∨
      ∃ (k : Nat) (type a b : UInt8) (serialLine tail : Bytes) (serial : Option Int), i = k ∧
        arr.drop k = type :: a :: b :: (serialLine ++ lf :: tail) ∧ lf ∉ serialLine ∧
        readFrame D arr i = readSize D arr type serial (k + (serialLine.length + 4)) := by
  by_cases hleft : (arr.length : Int) - i < 4
  · exact .inr (.inr (.inl ⟨by rw [readFrame, if_pos hleft], .fewLeft hleft⟩))
  · by_cases hneg : 0 ≤ i
    · obtain ⟨k, rfl⟩ := Int.eq_ofNat_of_zero_le hneg
      have hk : k + 2 < arr.length := by omega
      have hdrop : arr.drop k = arr[k] :: arr[k + 1] :: arr[k + 2] :: arr.drop (k + 3) := by
        rw [List.drop_eq_getElem_cons (by omega), List.drop_eq_getElem_cons (by omega),
          List.drop_eq_getElem_cons hk]
      rw [readFrame_of_drop D hdrop hleft]
      split
      · rename_i htype
        exact .inr (.inr (.inl ⟨rfl, .noType hdrop htype.1 htype.2⟩))
      · split
        · rename_i hmark
          have hserial : arr.drop (k + 1) = _ := @drop_of_drop _ _ [arr[k]] _ hdrop
          refine .inr (.inr (.inl ⟨rfl, .noSerial hdrop fun his => ?_⟩))
          rw [(hasPreamble_iff hserial).mpr his] at hmark
          cases hmark
        · split
          · exact .inl rfl
          · rename_i nl hnl
            obtain ⟨serialLine, tail, htail, hserial, rfl⟩ := drop_of_newlineFrom hnl
            rw [htail] at hdrop
            have hnext : k + 3 + serialLine.length + 1 = k + (serialLine.length + 4) := by omega
            rw [hnext]
            exact .inr (.inr (.inr ⟨k, _, _, _, serialLine, tail, _, rfl, hdrop, hserial, rfl⟩))
    · exact .inr (.inl (by rw [readFrame, if_neg hleft, byteAt, if_neg hneg]))

theorem readable_of_stop {i : Int} (h : readFrame D arr i = .stop true) : Readable D arr i := by
  rcases readFrame_inv D i with hspin | hfalse | ⟨-, hread⟩ | ⟨k, type, a, b, serialLine, tail, serial, rfl,
      hdrop, hserial, hread⟩
  · cases h.symm.trans hspin
  · cases h.symm.trans hfalse
  · exact hread
  · obtain ⟨c, d, rest, htail, hmark⟩ := drop_of_readSize_stop D (hread.symm.trans h)
    rw [drop_size hdrop] at htail
    rw [htail] at hdrop
    exact .noSize hdrop hserial hmark

theorem frame_of_readFrame {i : Int} {type' : UInt8} {serial' : Option Int} {start : Nat}
    {size : Option Int} {inside : Bool} (h : readFrame D arr i = .frame type' serial' start size inside) :
    ∃ (k : Nat) (type a b c d : UInt8) (serialLine sizeLine rest : Bytes), i = k ∧
      arr.drop k = type :: a :: b :: (serialLine ++ lf :: c :: d :: (sizeLine ++ lf :: rest)) ∧
      lf ∉ serialLine ∧ lf ∉ sizeLine ∧ start = k + (serialLine.length + sizeLine.length + 7) ∧
      size = parseInt (D.decode sizeLine) := by
  rcases readFrame_inv D i with hspin | hfalse | ⟨hstop, -⟩ | ⟨k, type, a, b, serialLine, tail, serial, rfl,
      hdrop, hserial, hread⟩
  · cases h.symm.trans hspin
  · cases h.symm.trans hfalse
  · cases h.symm.trans hstop
  · obtain ⟨c, d, sizeLine, rest, htail, hsize, rfl, rfl⟩ := drop_of_readSize_frame D (hread.symm.trans h)
    rw [drop_size hdrop] at htail
    rw [htail] at hdrop
    exact ⟨k, type, a, b, c, d, serialLine, sizeLine, rest, rfl, hdrop, hserial, hsize, by omega, rfl⟩

/-- The loop ends at once where a round stops. -/
theorem incomingLoop_stop {i : Int} (h : readFrame D arr i = .stop true) (inSerial : Option Int)
    (messages : List Data) :
    ∃ fuel serial all, incomingLoop D arr fuel i inSerial messages true =
      some (.stops serial all true) := by
  refine ⟨1, inSerial, messages, ?_⟩
  rw [incomingLoop, h]
  rfl

/-- And it ends after a frame whose size is no number. -/
theorem incomingLoop_last {i : Int} {type : UInt8} {serial : Option Int} {start : Nat}
    (h : readFrame D arr i = .frame type serial start none true) (inSerial : Option Int)
    (messages : List Data) :
    ∃ fuel serial all, incomingLoop D arr fuel i inSerial messages true =
      some (.stops serial all true) := by
  refine ⟨1, serial, messages ++ [frameData D arr type start none], ?_⟩
  rw [incomingLoop, h]
  rfl

/-- After any other frame it goes on where the size leads. -/
theorem incomingLoop_next {i : Int} {type : UInt8} {serial : Option Int} {start : Nat} {size : Int}
    (h : readFrame D arr i = .frame type serial start (some size) true) (inSerial : Option Int)
    (messages : List Data)
    (hmore : ∀ messages, ∃ fuel last all, incomingLoop D arr fuel (start + size + 1) serial messages true =
      some (.stops last all true)) :
    ∃ fuel last all, incomingLoop D arr fuel i inSerial messages true = some (.stops last all true) := by
  obtain ⟨fuel, last, all, hloop⟩ := hmore (messages ++ [frameData D arr type start (some size)])
  refine ⟨fuel + 1, last, all, ?_⟩
  rw [incomingLoop, h]
  exact hloop

/-- **The browser comes to an end inside the array from these indices.** -/
theorem ends_of_readable {i : Int} (h : Readable D arr i) (inSerial : Option Int) (messages : List Data) :
    ∃ fuel serial all, incomingLoop D arr fuel i inSerial messages true =
      some (.stops serial all true) := by
  induction h generalizing inSerial messages with
  | fewLeft h => exact incomingLoop_stop D (by rw [readFrame, if_pos h]) inSerial messages
  | @noType i type rest h hText hBinary =>
    apply incomingLoop_stop D
    rw [readFrame]
    split
    · rfl
    · rw [byteAt, if_pos (Int.natCast_nonneg i), Int.toNat_natCast, getElem?_of_drop h]
      exact if_pos ⟨hText, hBinary⟩
  | @noSerial i type a b rest h hmark =>
    apply incomingLoop_stop D
    by_cases hleft : (arr.length : Int) - (i : Int) < 4
    · rw [readFrame, if_pos hleft]
    · have hno : hasPreamble arr (i + 1) = false :=
        Bool.eq_false_iff.mpr fun his => hmark ((hasPreamble_iff (@drop_of_drop _ _ [type] _ h)).mp his)
      rw [readFrame_of_drop D h hleft, hno]
      split
      · rfl
      · rfl
  | noSize h hserial hmark =>
    apply incomingLoop_stop D
    rcases readFrame_head D h hserial with hstop | ⟨serial, hread⟩
    · exact hstop
    · have hdrop := drop_size h
      rw [hread, readSize, Bool.eq_false_iff.mpr fun his => hmark ((hasPreamble_iff hdrop).mp his),
        preambleWithin_of_drop hdrop]
      rfl
  | noNumber h hserial hsize hnan =>
    rcases readFrame_size D h hserial hsize with hstop | ⟨serial, hread⟩
    · exact incomingLoop_stop D hstop inSerial messages
    · rw [hnan] at hread
      exact incomingLoop_last D hread inSerial messages
  | frame h hserial hsize hnumber more ih =>
    rcases readFrame_size D h hserial hsize with hstop | ⟨serial, hread⟩
    · exact incomingLoop_stop D hstop inSerial messages
    · rw [hnumber] at hread
      exact incomingLoop_next D hread inSerial messages (ih serial)

theorem readable_of_ends {fuel : Nat} {i : Int} {inSerial serial : Option Int} {messages all : List Data}
    (h : incomingLoop D arr fuel i inSerial messages true = some (.stops serial all true)) :
    Readable D arr i := by
  induction fuel generalizing i inSerial messages with
  | zero => exact absurd h (by simp [incomingLoop])
  | succ fuel ih =>
    rw [incomingLoop] at h
    cases hframe : readFrame D arr i with
    | stop inside =>
      rw [hframe] at h
      simp only [Bool.true_and, Option.some.injEq, Ended.stops.injEq] at h
      exact readable_of_stop D (by rw [hframe, h.2.2])
    | spin =>
      rw [hframe] at h
      exact absurd h (by simp)
    | frame type serial start size inside =>
      obtain ⟨k, _, _, _, _, _, serialLine, sizeLine, rest, rfl, hdrop, hserial, hsize, rfl, hnumber⟩ :=
        frame_of_readFrame D hframe
      rw [hframe] at h
      cases size with
      | none => exact .noNumber hdrop hserial hsize hnumber.symm
      | some size =>
        cases inside with
        | true => exact .frame hdrop hserial hsize hnumber.symm (ih h)
        | false => exact absurd (incomingLoop_outside D h) (by simp)

theorem within_iff {i : Int} {inSerial : Option Int} {messages : List Data} :
    (∃ fuel serial all, incomingLoop D arr fuel i inSerial messages true =
        some (.stops serial all true)) ↔ Readable D arr i :=
  ⟨fun ⟨_, _, _, h⟩ => readable_of_ends D h, fun h => ends_of_readable D h inSerial messages⟩

end Within

/-! ## Both ways -/

/-- The server is handed the messages that were sent. -/
def ServerReceives (acts : List Action) : Prop :=
  ∃ serial, handleRequests 0 ((acts ++ [Action.doSend]).foldl Action.run .new).posted =
    some (serial, (sent acts).map fun t => utf8 t.chars)

/-- The browser delivers the payloads that were written, as text or binary, when it is given time
enough. -/
def BrowserReceives (D : TextDecoder) (batches : List (List (Bool × Bytes))) : Prop :=
  ∃ enough, ∀ fuel ≥ enough, ∃ messages, receive D fuel (some 0) (responses 0 batches) = some messages ∧
    messages.map (fun d => (d matches .text _, d.bytes)) = batches.flatten

/-- The browser's parser comes to an end, inside the array. -/
def BrowserEnds (D : TextDecoder) (inSerial : Option Int) (arr : Bytes) : Prop :=
  ∃ fuel serial messages, incomingLoop D arr fuel 0 inSerial [] true = some (.stops serial messages true)

theorem serverReceives_iff (acts : List Action) : ServerReceives acts ↔ sent acts = [] := by
  have hqueue : utf8 ProxySocket.new.sendQueue = frames 0 (([] : List Text).map Text.frame) := rfl
  obtain ⟨bodies, hbodies, hhandled⟩ := handleRequests_run acts hqueue rfl
  obtain ⟨serial, hserial⟩ := hhandled 0
  have hposted : ((acts ++ [Action.doSend]).foldl Action.run .new).posted = bodies := hbodies
  rw [ServerReceives, hposted, hserial, List.nil_append]
  constructor
  · rintro ⟨serial', h⟩
    have hmap := (Prod.mk.inj (Option.some.inj h)).2
    cases hs : sent acts with
    | nil => rfl
    | cons t ts =>
      rw [hs, List.map_cons, List.map_cons] at hmap
      exact absurd (congrArg List.length (List.cons.inj hmap).1) (by simp)
  · intro h
    rw [h]
    exact ⟨serial, rfl⟩

theorem delivered_eq_iff (D : TextDecoder) (m : Bool × Bytes) :
    (((delivered D m) matches .text _, (delivered D m).bytes) : Bool × Bytes) = m ↔
      (m.1 = true → ∃ s, m.2 = utf8 s ∧ s.head? ≠ some bom) := by
  obtain ⟨text, payload⟩ := m
  cases text with
  | true =>
    constructor
    · intro h _
      exact (utf8_decode_iff D payload).mp (Prod.mk.inj h).2
    · intro h
      exact Prod.ext rfl ((utf8_decode_iff D payload).mpr (h rfl))
  | false => exact iff_of_true rfl (fun h => absurd h (by simp))

theorem browserReceives_iff (D : TextDecoder) (batches : List (List (Bool × Bytes))) :
    BrowserReceives D batches ↔
      ∀ m ∈ batches.flatten, m.1 = true → ∃ s, m.2 = utf8 s ∧ s.head? ≠ some bom := by
  have hreceive : ∀ fuel ≥ batches.flatten.length + 1, receive D fuel (some 0) (responses 0 batches) =
      some (batches.flatten.map (delivered D)) := by
    intro fuel hfuel
    refine receive_responses D batches (fun batch hbatch => ?_) 0 (some 0)
    have hle := (List.sublist_flatten_of_mem hbatch).length_le
    omega
  have hmap : (batches.flatten.map (delivered D)).map
      (fun d => ((d matches .text _, d.bytes) : Bool × Bytes)) = batches.flatten ↔
      ∀ m ∈ batches.flatten, m.1 = true → ∃ s, m.2 = utf8 s ∧ s.head? ≠ some bom := by
    rw [List.map_map]
    conv_lhs => rhs; rw [← List.map_id batches.flatten]
    rw [List.map_inj_left]
    exact forall_congr' fun m => imp_congr_right fun _ => delivered_eq_iff D m
  rw [← hmap]
  constructor
  · rintro ⟨enough, h⟩
    obtain ⟨messages, hmessages, heq⟩ := h (enough + (batches.flatten.length + 1)) (by omega)
    rw [hreceive _ (by omega), Option.some.injEq] at hmessages
    rw [hmessages]
    exact heq
  · intro h
    exact ⟨_, fun fuel hfuel => ⟨_, hreceive fuel hfuel, h⟩⟩

/-- **What the framing keeps.** The server never gets the bytes of a message, since it adds the
newline; the browser gets everything but a text that is not UTF-8 or starts with a byte order mark;
and each parser stays inside what it was given on the inputs described above only. -/
theorem proxy_framing (D : TextDecoder) :
    (∀ acts, ServerReceives acts ↔ sent acts = []) ∧
    (∀ batches, BrowserReceives D batches ↔
      ∀ m ∈ batches.flatten, m.1 = true → ∃ s, m.2 = utf8 s ∧ s.head? ≠ some bom) ∧
    (∀ inSerial input, (parseEmitIncoming inSerial input).Done ↔ Contained input) ∧
    (∀ inSerial arr, BrowserEnds D inSerial arr ↔ Readable D arr 0) :=
  ⟨serverReceives_iff, browserReceives_iff D, parseEmitIncoming_done_iff,
    fun _ _ => within_iff D⟩

/-- A message of one letter, a frame cut in its serial number at the server, and one at the
browser. -/
theorem not_proxy_framing :
    ¬ ServerReceives [.send ⟨['a'], by decide⟩] ∧
      ¬ (parseEmitIncoming 0 (ascii "T1")).Done ∧
      ¬ BrowserEnds strictDecoder (some 0) (ascii "T0x1") := by
  refine ⟨?_, ?_, ?_⟩
  · rintro ⟨serial, h⟩
    have hgot : handleRequests 0 (([Action.send ⟨['a'], by decide⟩] ++ [Action.doSend]).foldl
        Action.run .new).posted = some (0, [ascii "a" ++ [lf]]) := by decide +kernel
    rw [hgot] at h
    exact absurd (Prod.mk.inj (Option.some.inj h)).2 (by decide)
  · have hparse : parseEmitIncoming 0 (ascii "T1") = .outside := by decide +kernel
    rw [hparse]
    exact id
  · rintro ⟨fuel, serial, messages, h⟩
    have hspin : readFrame strictDecoder (ascii "T0x1") 0 = .spin := rfl
    cases fuel with
    | zero => exact absurd h (by simp [incomingLoop])
    | succ fuel =>
      rw [incomingLoop, hspin] at h
      exact absurd h (by simp)

end Oxool.Proxy
