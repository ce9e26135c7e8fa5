import Mathlib.Data.List.GetD
import Oxool.Lib.Framing
import Oxool.Net.WebSocket.Handler

/-!
# Frames

The wire format of a frame, read on its own: two bytes, the long form of the length if there is
one, the masking key if there is one, the payload. A stream has the frames `frames` takes off it,
and this does not depend on a receiver or on how the stream arrives. The section below ties the
receiver to it: `handleTCPStream` handles the first frame of its buffer (`handleTCPStream_eq`), or
waits when there is none, and never indexes the buffer outside that frame.
-/

set_option autoImplicit false

namespace Oxool.Net

structure Frame where
  fin : Bool
  code : UInt8
  masked : Bool
  payload : List UInt8
deriving DecidableEq

/-! ## The wire format -/

def bigEndian (bs : List UInt8) : Nat := bs.foldl (fun n b => n * 256 + b.toNat) 0

/-- How many bytes the long form of the length has, by the second byte of the frame. -/
def lengthSize (b1 : UInt8) : Nat :=
  if b1 &&& 0x7f = 126 then 2 else if b1 &&& 0x7f = 127 then 8 else 0

def payloadLength (b1 : UInt8) (lengthBytes : List UInt8) : Nat :=
  if lengthSize b1 = 0 then (b1 &&& 0x7f).toNat else bigEndian lengthBytes

def hasMask (b1 : UInt8) : Bool := b1 &&& 0x80 != 0

def maskSize (b1 : UInt8) : Nat := if hasMask b1 then 4 else 0

/-- Masking, which is its own inverse. No key leaves the data as it is. -/
def xorMask (mask data : List UInt8) : List UInt8 :=
  data.mapIdx fun i b => b ^^^ mask.getD (i % 4) 0

def frameOf (b0 b1 : UInt8) (mask body : List UInt8) : Frame :=
  { fin := b0 &&& 0x80 != 0, code := b0 &&& 0x0f, masked := hasMask b1,
    payload := xorMask mask body }

/-- The first frame of a buffer and what follows it. -/
def parseFrame (bs : List UInt8) : Option (Frame × List UInt8) :=
  match bs with
  | b0 :: b1 :: bs =>
    (takeExactly (lengthSize b1) bs).bind fun (lengthBytes, bs) =>
      (takeExactly (maskSize b1) bs).bind fun (mask, bs) =>
        (takeExactly (payloadLength b1 lengthBytes) bs).bind fun (body, bs) =>
          some (frameOf b0 b1 mask body, bs)
  | _ => none

theorem parseFrame_eq_some {bs rest : List UInt8} {f : Frame} :
    parseFrame bs = some (f, rest) ↔
      ∃ b0 b1 lengthBytes mask body, bs = b0 :: b1 :: (lengthBytes ++ (mask ++ (body ++ rest))) ∧
        lengthBytes.length = lengthSize b1 ∧ mask.length = maskSize b1 ∧
        body.length = payloadLength b1 lengthBytes ∧ f = frameOf b0 b1 mask body := by
  constructor
  · intro h
    unfold parseFrame at h
    split at h
    · rename_i b0 b1 bs
      simp only [Option.bind_eq_some_iff, Option.some.injEq, Prod.mk.injEq, Prod.exists] at h
      obtain ⟨lb, r1, h1, mask, r2, h2, body, r3, h3, rfl, rfl⟩ := h
      obtain ⟨rfl, hl⟩ := takeExactly_eq_some.mp h1
      obtain ⟨rfl, hm⟩ := takeExactly_eq_some.mp h2
      obtain ⟨rfl, hb⟩ := takeExactly_eq_some.mp h3
      exact ⟨b0, b1, lb, mask, body, rfl, hl, hm, hb, rfl⟩
    · exact absurd h (by simp)
  · rintro ⟨b0, b1, lb, mask, body, rfl, hl, hm, hb, rfl⟩
    simp only [parseFrame, takeExactly_eq_some.mpr ⟨rfl, hl⟩, takeExactly_eq_some.mpr ⟨rfl, hm⟩,
      takeExactly_eq_some.mpr ⟨rfl, hb⟩, Option.bind_some]

/-- Frames delimit themselves. -/
def framing : Framing UInt8 Frame where
  next := parseFrame
  shorter h := by
    obtain ⟨b0, b1, lb, mask, body, rfl, -⟩ := parseFrame_eq_some.mp h
    simp only [List.length_cons, List.length_append]
    omega
  stable h more := by
    obtain ⟨b0, b1, lb, mask, body, rfl, hl, hm, hb, rfl⟩ := parseFrame_eq_some.mp h
    exact parseFrame_eq_some.mpr ⟨b0, b1, lb, mask, body, by simp, hl, hm, hb, rfl⟩

/-- The complete frames of a stream. -/
def frames (bs : List UInt8) : List Frame := framing.items bs

/-! ## What the receiver reads of its buffer -/

theorem mapM_range {n : Nat} {f : Nat → Option UInt8} {g : Nat → UInt8}
    (h : ∀ i, i < n → f i = some (g i)) : (List.range n).mapM f = some ((List.range n).map g) := by
  have hlist : ∀ l : List Nat, (∀ i ∈ l, f i = some (g i)) → l.mapM f = some (l.map g) := by
    intro l
    induction l with
    | nil => intro _; rfl
    | cons i l ih =>
      intro hl
      rw [List.mapM_cons, hl i List.mem_cons_self, ih fun j hj => hl j (List.mem_cons_of_mem _ hj)]
      rfl
  exact hlist _ fun i hi => h i (List.mem_range.mp hi)

namespace WebSocketHandler

/-- The length fields, read in place. -/
theorem readLength_eq (b0 b1 : UInt8) (bs : List UInt8) :
    readLength (fun i => (b0 :: b1 :: bs)[i]?) (b0 :: b1 :: bs).length (b1 &&& 0x7f).toNat =
      some ((takeExactly (lengthSize b1) bs).map fun x =>
        (payloadLength b1 x.1, 2 + lengthSize b1)) := by
  unfold readLength
  by_cases h126 : b1 &&& 0x7f = 126
  · have hsize : lengthSize b1 = 2 := by rw [lengthSize, if_pos h126]
    rw [if_pos (by rw [h126]; rfl), hsize]
    obtain _ | ⟨b2, _ | ⟨b3, bs⟩⟩ := bs
    · rfl
    · rfl
    · -- both bytes are there
      have hor : b2.toNat <<< 8 ||| b3.toNat = b2.toNat * 256 + b3.toNat := by
        rw [← Nat.shiftLeft_add_eq_or_of_lt b3.toNat_lt, Nat.shiftLeft_eq]
      rw [if_neg (by simp only [List.length_cons]; omega)]
      show some (some (b2.toNat <<< 8 ||| b3.toNat, 4)) = _
      simp [hor, takeExactly, payloadLength, hsize, bigEndian]
  · by_cases h127 : b1 &&& 0x7f = 127
    · have hsize : lengthSize b1 = 8 := by rw [lengthSize, if_neg h126, if_pos h127]
      rw [if_neg (by rw [h127]; decide), if_pos (by rw [h127]; rfl), hsize]
      obtain _ | ⟨b2, _ | ⟨b3, _ | ⟨b4, _ | ⟨b5, _ | ⟨b6, _ | ⟨b7, _ | ⟨b8, _ | ⟨b9, bs⟩⟩⟩⟩⟩⟩⟩⟩ := bs
      iterate 8 · rfl
      · -- all eight are there
        rw [if_neg (by simp only [List.length_cons]; omega)]
        simp only [takeExactly, payloadLength, hsize, bigEndian, List.length_cons, Nat.shiftLeft_eq,
          List.getElem?_cons_succ, List.getElem?_cons_zero]
        rw [if_neg (by omega)]
        show some (some (_, 10)) = some (some (_, 10))
        congr 3
        rw [if_neg (by decide)]
        simp only [List.take_succ_cons, List.take_zero, List.foldl_cons, List.foldl_nil]
        omega
    · have hsize : lengthSize b1 = 0 := by rw [lengthSize, if_neg h126, if_neg h127]
      have hne126 : (b1 &&& 0x7f).toNat ≠ 126 := fun h => h126 (UInt8.toNat_inj.mp h)
      have hne127 : (b1 &&& 0x7f).toNat ≠ 127 := fun h => h127 (UInt8.toNat_inj.mp h)
      rw [if_neg hne126, if_neg hne127, hsize]
      simp [takeExactly, payloadLength, hsize]

/-- A byte of the middle part of a buffer, read in place. -/
theorem getElem?_middle {pre mid rest : List UInt8} {i : Nat} (hi : i < mid.length) :
    (pre ++ (mid ++ rest))[pre.length + i]? = some (mid.getD i 0) := by
  rw [List.getElem?_append_right (Nat.le_add_right _ _), Nat.add_sub_cancel_left,
    List.getElem?_append_left hi, List.getElem?_eq_getElem hi, List.getD_eq_getElem _ _ hi]

theorem xorMask_eq_map (mask body : List UInt8) :
    xorMask mask body =
      (List.range body.length).map fun i => body.getD i 0 ^^^ mask.getD (i % 4) 0 := by
  refine List.ext_getElem (by simp [xorMask]) fun i h _ => ?_
  have hi : i < body.length := by simpa [xorMask] using h
  simp [xorMask, hi]

/-- The payload, read in place: `pre` is the header before the key. -/
theorem readPayload_eq (pre mask body rest acc : List UInt8) (masked : Bool)
    (hm : mask.length = if masked then 4 else 0) :
    readPayload (fun i => (pre ++ (mask ++ (body ++ rest)))[i]?) (pre.length + mask.length)
      body.length (if masked then some pre.length else none) acc =
      some (acc ++ xorMask mask body) := by
  have hbody : ∀ i, i < body.length →
      (pre ++ (mask ++ (body ++ rest)))[pre.length + mask.length + i]? = some (body.getD i 0) := by
    intro i hi
    rw [← List.append_assoc, ← List.length_append]
    exact getElem?_middle hi
  unfold readPayload
  by_cases h0 : body.length = 0
  · rw [if_pos h0, List.length_eq_zero_iff.mp h0]
    simp [xorMask]
  rw [if_neg h0]
  cases masked with
  | true =>
    have hmask : ∀ i, (pre ++ (mask ++ (body ++ rest)))[pre.length + i % 4]? =
        some (mask.getD (i % 4) 0) := by
      intro i
      exact getElem?_middle (by rw [hm]; exact Nat.mod_lt _ (by decide))
    simp only [if_true]
    rw [mapM_range fun i hi => by rw [hbody i hi, hmask i]; rfl, xorMask_eq_map]
    rfl
  | false =>
    have hnil : mask = [] := List.length_eq_zero_iff.mp hm
    simp only [Bool.false_eq_true, if_false]
    rw [mapM_range hbody, hnil, xorMask_eq_map]
    simp

/-! ## What the sender puts on the wire -/

/-- The bytes of a frame as `buildFrame` writes it. -/
def frameBytes (isMasking : Bool) (flags : UInt8) (data : List UInt8) : List UInt8 :=
  scratch isMasking data.length flags ++
    if isMasking then maskKey ++ xorMask maskKey data else data

theorem length_xorMask (mask data : List UInt8) : (xorMask mask data).length = data.length :=
  List.length_mapIdx

theorem getElem_xorMask {mask data : List UInt8} {i : Nat} (h : i < (xorMask mask data).length) :
    (xorMask mask data)[i] = data.getD i 0 ^^^ mask.getD (i % 4) 0 := by
  have hi : i < data.length := by rwa [length_xorMask] at h
  simp [xorMask, hi]

/-- The masking loop writes the masked data from `i` on. -/
theorem copyMasked_eq (data : List UInt8) : ∀ (fuel i : Nat) (out : Buffer),
    data.length ≤ i + fuel →
      copyMasked data data.length fuel i out =
        some (out.insertEnd ((xorMask maskKey data).drop i)) := by
  intro fuel
  induction fuel with
  | zero =>
    intro i out h
    rw [List.drop_eq_nil_of_le (by rw [length_xorMask]; omega), Buffer.insertEnd_nil]
    rfl
  | succ fuel ih =>
    intro i out h
    unfold copyMasked
    dsimp only
    by_cases h0 : min 16384 (data.length - i) = 0
    · rw [if_pos h0, List.drop_eq_nil_of_le (by rw [length_xorMask]; omega), Buffer.insertEnd_nil]
    · have hcopy : ((List.range (min 16384 (data.length - i))).map fun j =>
          data.getD (i + j) 0 ^^^ maskKey.getD ((i + j) % 4) 0) =
          ((xorMask maskKey data).drop i).take (min 16384 (data.length - i)) := by
        refine List.ext_getElem (by simp [length_xorMask]) fun j h₁ h₂ => ?_
        rw [List.getElem_take, List.getElem_drop, getElem_xorMask]
        simp
      have happ := out.append_eq (show (((xorMask maskKey data).drop i).take
        (min 16384 (data.length - i))).length < 2 ^ 31 by rw [List.length_take]; omega)
      rw [List.length_take, List.length_drop, length_xorMask, Nat.min_assoc, Nat.min_self] at happ
      rw [if_neg h0, hcopy, happ, Option.bind_some, ih _ _ (by omega), Buffer.insertEnd_insertEnd,
        ← List.drop_drop, List.take_append_drop]

theorem length_scratch_le (isMasking : Bool) (len : Nat) (flags : UInt8) :
    (scratch isMasking len flags).length ≤ 10 := by
  simp only [scratch]
  split
  · simp
  · split <;> simp

theorem buildFrame_eq (isMasking : Bool) {data : List UInt8} (hd : data.length < 2 ^ 31)
    (flags : UInt8) (out : Buffer) :
    buildFrame isMasking data data.length flags out =
      some (out.insertEnd (frameBytes isMasking flags data)) := by
  have hhead := length_scratch_le isMasking data.length flags
  simp only [buildFrame, frameBytes]
  rw [Buffer.append_eq _ (by omega), Option.bind_some]
  cases isMasking with
  | true =>
    have hkey := (out.insertEnd (scratch true data.length flags)).append_eq
      (show maskKey.length < 2 ^ 31 by decide)
    simp only [if_true]
    rw [show maskKey.length = 4 from rfl] at hkey
    rw [hkey, Option.bind_some, copyMasked_eq data _ _ _ (by omega), List.drop_zero,
      Buffer.insertEnd_insertEnd, Buffer.insertEnd_insertEnd]
  | false =>
    simp only [Bool.false_eq_true, if_false]
    rw [Buffer.append_eq _ hd, Buffer.insertEnd_insertEnd]

/-- The second byte carries a 7-bit length and the mask flag. -/
theorem lengthByte (isMasking : Bool) {n : Nat} (hn : n < 128) :
    ((UInt8.ofNat n ||| (if isMasking then 0x80 else 0)) &&& 0x7f).toNat = n ∧
      hasMask (UInt8.ofNat n ||| (if isMasking then 0x80 else 0)) = isMasking ∧
      lengthSize (UInt8.ofNat n ||| (if isMasking then 0x80 else 0)) =
        if n = 126 then 2 else if n = 127 then 8 else 0 := by
  have h : ∀ (m : Bool) (n : Fin 128),
      ((UInt8.ofNat n ||| (if m then 0x80 else 0)) &&& 0x7f).toNat = n ∧
        hasMask (UInt8.ofNat n ||| (if m then 0x80 else 0)) = m ∧
        lengthSize (UInt8.ofNat n ||| (if m then 0x80 else 0)) =
          if n.val = 126 then 2 else if n.val = 127 then 8 else 0 := by decide +kernel
  exact h isMasking ⟨n, hn⟩

theorem finByte (flags : UInt8) :
    ((0x80 ||| flags) &&& 0x80 != 0) = true ∧ (0x80 ||| flags) &&& 0x0f = flags &&& 0x0f := by
  have h : ∀ n : Fin 256, ((0x80 ||| UInt8.ofNat n) &&& 0x80 != 0) = true ∧
      (0x80 ||| UInt8.ofNat n) &&& 0x0f = UInt8.ofNat n &&& 0x0f := by decide +kernel
  have := h ⟨flags.toNat, flags.toNat_lt⟩
  rwa [UInt8.ofNat_toNat] at this

theorem xorMask_xorMask (mask data : List UInt8) : xorMask mask (xorMask mask data) = data := by
  refine List.ext_getElem (by simp [length_xorMask]) fun i h₁ h₂ => ?_
  rw [getElem_xorMask, List.getD_eq_getElem _ _ (by rwa [length_xorMask]), getElem_xorMask,
    List.getD_eq_getElem _ _ h₂, UInt8.xor_assoc, UInt8.xor_self, UInt8.xor_zero]

theorem xorMask_nil (data : List UInt8) : xorMask [] data = data := by
  refine List.ext_getElem (length_xorMask _ _) fun i h₁ h₂ => ?_
  rw [getElem_xorMask, List.getD_eq_getElem _ _ h₂]
  simp

/-- One more byte of a length, whose high part has been read. -/
theorem bigEndian_next (len j k : Nat) (hj : j = k + 8) :
    (len >>> j) * 256 + (UInt8.ofNat (len >>> k)).toNat = len >>> k := by
  rw [hj, Nat.shiftRight_add, UInt8.toNat_ofNat', Nat.shiftRight_eq_div_pow (len >>> k) 8]
  exact Nat.div_add_mod' _ _

/-- The first byte, above which the length has nothing. -/
theorem bigEndian_first (len j k : Nat) (hj : j = k + 8) (hlen : len < 2 ^ j) :
    0 * 256 + (UInt8.ofNat (len >>> k)).toNat = len >>> k := by
  have hnone : len >>> j = 0 := by rw [Nat.shiftRight_eq_div_pow, Nat.div_eq_of_lt hlen]
  have hnext := bigEndian_next len j k hj
  rwa [hnone] at hnext

/-- The header `buildFrame` writes states the length of the data. -/
theorem scratch_eq (isMasking : Bool) {len : Nat} (hlen : len < 2 ^ 64) (flags : UInt8) :
    ∃ b1 lb, scratch isMasking len flags = (0x80 ||| flags) :: b1 :: lb ∧
      lb.length = lengthSize b1 ∧ hasMask b1 = isMasking ∧ payloadLength b1 lb = len := by
  simp only [scratch]
  by_cases h126 : len < 126
  · obtain ⟨hlow, hmask, hsize⟩ := lengthByte isMasking (show len < 128 by omega)
    rw [if_neg (show len ≠ 126 by omega), if_neg (show len ≠ 127 by omega)] at hsize
    rw [if_pos h126]
    exact ⟨_, [], rfl, by rw [hsize]; rfl, hmask, by rw [payloadLength, if_pos hsize, hlow]⟩
  · rw [if_neg h126]
    by_cases h16 : len ≤ 0xffff
    · obtain ⟨-, hmask, hsize⟩ := lengthByte isMasking (show 126 < 128 by omega)
      have hlong : lengthSize (126 ||| (if isMasking then 0x80 else 0)) = 2 := hsize
      rw [if_pos h16]
      refine ⟨_, _, rfl, hlong.symm, hmask, ?_⟩
      rw [payloadLength, if_neg (by rw [hlong]; decide), bigEndian]
      simp only [List.foldl_cons, List.foldl_nil]
      rw [bigEndian_first len 16 8 rfl (by omega)]
      exact bigEndian_next len 8 0 rfl
    · obtain ⟨-, hmask, hsize⟩ := lengthByte isMasking (show 127 < 128 by omega)
      have hlong : lengthSize (127 ||| (if isMasking then 0x80 else 0)) = 8 := hsize
      rw [if_neg h16]
      refine ⟨_, _, rfl, hlong.symm, hmask, ?_⟩
      rw [payloadLength, if_neg (by rw [hlong]; decide), bigEndian]
      simp only [List.foldl_cons, List.foldl_nil]
      rw [bigEndian_first len 64 56 rfl hlen, bigEndian_next len 56 48 rfl,
        bigEndian_next len 48 40 rfl, bigEndian_next len 40 32 rfl, bigEndian_next len 32 24 rfl,
        bigEndian_next len 24 16 rfl, bigEndian_next len 16 8 rfl]
      exact bigEndian_next len 8 0 rfl

/-- **A built frame reads back as itself**, whatever follows it. -/
theorem parseFrame_frameBytes (isMasking : Bool) (flags : UInt8) {data : List UInt8}
    (hd : data.length < 2 ^ 64) (rest : List UInt8) :
    parseFrame (frameBytes isMasking flags data ++ rest) =
      some ({ fin := true, code := flags &&& 0x0f, masked := isMasking, payload := data }, rest) := by
  obtain ⟨b1, lb, hhead, hlb, hmask, hlen⟩ := scratch_eq isMasking hd flags
  obtain ⟨hfin, hcode⟩ := finByte flags
  rw [frameBytes, hhead]
  cases isMasking with
  | true =>
    refine parseFrame_eq_some.mpr ⟨0x80 ||| flags, b1, lb, maskKey, xorMask maskKey data,
      by simp, hlb,
      by rw [maskSize, hmask]; rfl, by rw [length_xorMask, hlen], ?_⟩
    rw [frameOf, hfin, hcode, hmask, xorMask_xorMask]
  | false =>
    refine parseFrame_eq_some.mpr ⟨0x80 ||| flags, b1, lb, [], data, by simp, hlb,
      by rw [maskSize, hmask]; rfl, by rw [hlen], ?_⟩
    rw [frameOf, hfin, hcode, hmask, xorMask_nil]

/-! ## One frame -/

/-- What `handleTCPStream` does with a frame, its input buffer aside. -/
def onFrame (h : WebSocketHandler) (f : Frame) : Option WebSocketHandler :=
  if f.masked && h.isClient then h.shutdown protocolError []
  else if f.code ≥ opClose then h.controlFrame f.fin f.code f.payload.length f.payload
  else if h.inFragmentBlock && f.code != opContinuation then h.shutdown protocolError []
  else if !h.inFragmentBlock && f.code == opContinuation then h.shutdown protocolError []
  else some ({ h with wsPayload := h.wsPayload ++ f.payload }.dataFrame f.fin)

/-- A handler that reads its input. -/
structure Live (h : WebSocketHandler) : Prop where
  open_ : h.socket.closed = false
  reads : h.socket.ignoreInput = false

/-- Replacing the input buffer. -/
def setInput (b : Buffer) (h : WebSocketHandler) : WebSocketHandler :=
  { h with socket := { h.socket with inBuffer := b } }

theorem sendFrame_setInput (h : WebSocketHandler) (b : Buffer) (data : List UInt8) (flags : UInt8) :
    (h.setInput b).sendFrame data flags = (h.sendFrame data flags).map (setInput b) := by
  simp only [sendFrame, apply_ite (Option.map (setInput b)), Option.map_some, Option.map_map]
  rfl

theorem sendCloseFrame_setInput (h : WebSocketHandler) (b : Buffer) (code : Nat)
    (msg : List UInt8) :
    (h.setInput b).sendCloseFrame code msg = (h.sendCloseFrame code msg).map (setInput b) := by
  simp only [sendCloseFrame, apply_ite (Option.map (setInput b)), Option.map_some,
    ← sendFrame_setInput]
  rfl

/-- Shutting down clears the input buffer, whatever it held. -/
theorem shutdown_setInput (h : WebSocketHandler) (b : Buffer) (code : Nat) (msg : List UInt8) :
    (h.setInput b).shutdown code msg = h.shutdown code msg := by
  unfold shutdown
  rw [sendCloseFrame_setInput]
  cases hs : h.shuttingDown with
  | true => simp [setInput, hs]
  | false =>
    simp only [setInput, hs, Bool.false_eq_true, if_false, Option.map_map]
    rfl

/-- The input buffer becomes `b`, unless the connection was shut down. -/
def keepInput (b : Buffer) (h : WebSocketHandler) : WebSocketHandler :=
  if h.socket.ignoreInput then h else h.setInput b

theorem shutdown_map_keepInput (h : WebSocketHandler) (b : Buffer) (code : Nat)
    (msg : List UInt8) : (h.shutdown code msg).map (keepInput b) = h.shutdown code msg := by
  rw [shutdown, Option.map_map]
  rfl

theorem sendFrame_map_keepInput {h : WebSocketHandler} (hl : h.Live) (b : Buffer)
    (data : List UInt8) (flags : UInt8) :
    (h.sendFrame data flags).map (keepInput b) = (h.sendFrame data flags).map (setInput b) := by
  have hreads := hl.reads
  simp only [sendFrame, apply_ite (Option.map (keepInput b)), apply_ite (Option.map (setInput b)),
    Option.map_some, Option.map_map, Function.comp_def, keepInput, hreads, Bool.false_eq_true,
    if_false]

theorem closeFrame_setInput (h : WebSocketHandler) (b : Buffer) (payload : List UInt8) :
    (h.setInput b).closeFrame payload = (h.closeFrame payload).map (keepInput b) := by
  unfold closeFrame
  simp only [shutdown_setInput, apply_ite (Option.map (keepInput b)), shutdown_map_keepInput]
  simp only [Option.bind_eq_bind, Option.map_bind, Function.comp_def, shutdown_map_keepInput]
  rfl

theorem controlFrame_setInput {h : WebSocketHandler} (hl : h.Live) (b : Buffer) (fin : Bool)
    (code : UInt8) (payloadLen : Nat) (payload : List UInt8) :
    (h.setInput b).controlFrame fin code payloadLen payload =
      (h.controlFrame fin code payloadLen payload).map (keepInput b) := by
  have hreads := hl.reads
  unfold controlFrame sendPong sendMessage
  simp only [shutdown_setInput, closeFrame_setInput, sendFrame_setInput,
    apply_ite (Option.map (keepInput b)), shutdown_map_keepInput, sendFrame_map_keepInput hl]
  simp only [Option.map_some, keepInput, hreads, Bool.false_eq_true, if_false]

/-- A frame's effect does not depend on the input buffer, and leaves it alone unless it ends the
connection. -/
theorem onFrame_setInput {h : WebSocketHandler} (hl : h.Live) (b : Buffer) (f : Frame) :
    (h.setInput b).onFrame f = (h.onFrame f).map (keepInput b) := by
  have hreads := hl.reads
  have hdata : keepInput b ({ h with wsPayload := h.wsPayload ++ f.payload }.dataFrame f.fin) =
      { h.setInput b with wsPayload := h.wsPayload ++ f.payload }.dataFrame f.fin := by
    cases hf : f.fin <;> simp [dataFrame, keepInput, setInput, hreads]
  unfold onFrame
  simp only [shutdown_setInput, controlFrame_setInput hl, apply_ite (Option.map (keepInput b)),
    shutdown_map_keepInput, Option.map_some, hdata]
  rfl

/-- `handleTCPStream` once the header is read: the frame's effect, and the frame off the buffer. -/
theorem handleWholeFrame_eq {h : WebSocketHandler} (hl : h.Live) {pre mask body rest : List UInt8}
    (hb : h.socket.inBuffer.bytes = pre ++ (mask ++ (body ++ rest))) (fin : Bool) (code : UInt8)
    (masked : Bool) (hm : mask.length = if masked then 4 else 0) :
    h.handleWholeFrame fin code (if masked then some pre.length else none)
      (pre.length + mask.length) body.length =
      (h.onFrame { fin, code, masked, payload := xorMask mask body }).map
        (keepInput (h.socket.inBuffer.eraseFirst (pre.length + mask.length + body.length))) := by
  have hp : h.socket.inBuffer.get? = fun i => (pre ++ (mask ++ (body ++ rest)))[i]? := by
    funext i
    rw [Buffer.get?_eq, hb]
  have hlen := length_xorMask mask body
  have hsome : (if masked then some pre.length else none).isSome = masked := by
    cases masked <;> rfl
  rw [← onFrame_setInput hl]
  unfold handleWholeFrame onFrame
  simp only [hp, hsome, hlen, shutdown_setInput, readPayload_eq pre mask body rest _ masked hm]
  rfl

/-- **`handleTCPStream` handles the first frame of its buffer.** Without a whole frame it waits.
It has a defined outcome exactly when the frame's effect has one: the reads of the header, the key
and the payload stay inside the frame. -/
theorem handleTCPStream_eq {h : WebSocketHandler} (hl : h.Live) :
    h.handleTCPStream =
      match parseFrame h.socket.inBuffer.bytes with
      | none => some (h, false)
      | some (f, rest) => (h.onFrame f).map fun h' =>
        (h'.keepInput (h.socket.inBuffer.eraseFirst (h.socket.inBuffer.size - rest.length)),
          true) := by
  have hp : h.socket.inBuffer.get? = fun i => h.socket.inBuffer.bytes[i]? :=
    funext (Buffer.get?_eq _)
  unfold handleTCPStream
  simp only [hp, ← Buffer.length_bytes]
  match hbs : h.socket.inBuffer.bytes with
  | [] => simp [parseFrame]
  | [b0] => simp [parseFrame]
  | b0 :: b1 :: bs =>
    rw [if_neg (by simp only [List.length_cons]; omega)]
    simp only [List.getElem?_cons_zero, List.getElem?_cons_succ, Option.bind_eq_bind,
      Option.bind_some, Option.pure_def, readLength_eq, ← hasMask.eq_def]
    cases hl1 : takeExactly (lengthSize b1) bs with
    | none => simp [parseFrame, hl1]
    | some x =>
      obtain ⟨lb, r1⟩ := x
      obtain ⟨rfl, hlb⟩ := takeExactly_eq_some.mp hl1
      simp only [Option.map_some]
      have hhead : (if hasMask b1 then 2 + lengthSize b1 + 4 else 2 + lengthSize b1) =
          2 + lengthSize b1 + maskSize b1 := by
        unfold maskSize
        split <;> rfl
      rw [hhead]
      by_cases hwhole : maskSize b1 + payloadLength b1 lb ≤ r1.length
      · obtain ⟨mask, r2, hmask⟩ : ∃ mask r2, takeExactly (maskSize b1) r1 = some (mask, r2) :=
          ⟨_, _, if_neg (by omega)⟩
        obtain ⟨rfl, hm⟩ := takeExactly_eq_some.mp hmask
        rw [List.length_append] at hwhole
        obtain ⟨body, rest, hbody⟩ : ∃ body rest,
            takeExactly (payloadLength b1 lb) r2 = some (body, rest) := ⟨_, _, if_neg (by omega)⟩
        obtain ⟨rfl, hb⟩ := takeExactly_eq_some.mp hbody
        have hbs' : h.socket.inBuffer.bytes = (b0 :: b1 :: lb) ++ (mask ++ (body ++ rest)) := hbs
        have hpre : 2 + lengthSize b1 = (b0 :: b1 :: lb).length := by
          simp only [List.length_cons]; omega
        rw [parseFrame_eq_some.mpr ⟨b0, b1, lb, mask, body, rfl, hlb, hm, hb, rfl⟩,
          if_neg (by simp only [List.length_cons, List.length_append]; omega), hpre, ← hb, ← hm,
          handleWholeFrame_eq hl hbs' _ _ _ hm]
        have herase : (b0 :: b1 :: lb).length + mask.length + body.length =
            (b0 :: b1 :: (lb ++ (mask ++ (body ++ rest)))).length - rest.length := by
          simp only [List.length_cons, List.length_append]; omega
        rw [herase]
        show Option.bind (Option.map _ (h.onFrame (frameOf b0 b1 mask body))) _ =
          Option.map _ (h.onFrame (frameOf b0 b1 mask body))
        cases h.onFrame (frameOf b0 b1 mask body) <;> rfl
      · have hnone : parseFrame (b0 :: b1 :: (lb ++ r1)) = none := by
          cases hmask : takeExactly (maskSize b1) r1 with
          | none => simp [parseFrame, hl1, hmask]
          | some y =>
            obtain ⟨mask, r2⟩ := y
            obtain ⟨rfl, hm⟩ := takeExactly_eq_some.mp hmask
            rw [List.length_append] at hwhole
            have hshort : r2.length < payloadLength b1 lb := by omega
            simp [parseFrame, hl1, hmask, takeExactly_eq_none.mpr hshort]
        rw [if_pos (by simp only [List.length_cons, List.length_append]; omega), hnone]

end WebSocketHandler

end Oxool.Net
