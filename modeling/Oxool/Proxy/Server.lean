import Oxool.Lib.Trim
import Oxool.Net.Http.IncomingRequest
import Oxool.Net.Http.Payload

/-!
# The server's end of the proxy protocol (`wsd/ProxyProtocol.cpp`)

Where a web socket cannot get through, messages travel in the bodies of HTTP requests and
responses, each in a frame: a type, a serial number and a length in hex, and the content. The server
reads requests with `parseEmitIncoming` and writes responses with `ProxyProtocolHandler::Message`.

The input buffer is read as the list of its live bytes (`Oxool.Net.Buffer`). An access outside it is
`Parsed.outside`.
-/

set_option autoImplicit false

namespace Oxool.Proxy

open Oxool.Http

def typeText : UInt8 := 84
def typeBinary : UInt8 := 66

/-! ## Reading -/

/-- The bytes up to the first LF and those after it. -/
def splitLine : Bytes → Option (Bytes × Bytes)
  | [] => none
  | b :: bs => if b = lf then some ([], bs) else (splitLine bs).map fun (line, rest) => (b :: line, rest)

/-- A number's sign, and what comes after it. -/
def splitSign : Bytes → Bool × Bytes
  | 45 :: s => (true, s)
  | 43 :: s => (false, s)
  | s => (false, s)

/-- What comes after a `0x`, which counts only before a digit. -/
def dropHexMark : Bytes → Bytes
  | 48 :: 120 :: d :: rest => if isHexDigit d then d :: rest else 48 :: 120 :: d :: rest
  | 48 :: 88 :: d :: rest => if isHexDigit d then d :: rest else 48 :: 88 :: d :: rest
  | s => s

/-- `strtoll(s, nullptr, 16)` on a line whose LF was made a NUL. -/
def strtoll (s : Bytes) : Int :=
  let (negative, s) := splitSign ((s.takeWhile (· != 0)).dropWhile isSpace)
  let value := hexValue ((dropHexMark s).takeWhile isHexDigit)
  if negative then max (-(value : Int)) (-2 ^ 63) else min (value : Int) (2 ^ 63 - 1)

/-- The conversion to `uint64_t`. -/
def toUInt64 (n : Int) : Nat := (n % 2 ^ 64).toNat

/-- What `parseEmitIncoming` comes to: its answer, what it leaves in the buffer, `_inSerial`, and the
messages it handed to `handleMessage`. -/
inductive Parsed
  | outside
  | done (ok : Bool) (left : Bytes) (inSerial : Nat) (handled : List Bytes)
deriving DecidableEq

/-- The loop of `parseEmitIncoming`. Each round but the last takes a frame off the input, so that a
round for each byte is enough. -/
def parseLoop : Nat → Bytes → Nat → List Bytes → Parsed
  | 0, input, inSerial, handled => .done true input inSerial handled
  | _, [], inSerial, handled => .done true [] inSerial handled
  | fuel + 1, type :: rest, inSerial, handled =>
    if (type ≠ typeText ∧ type ≠ typeBinary) ∨ rest = [] then
      .done false (type :: rest) inSerial handled
    else
      match splitLine rest with
      | none => .outside
      | some (serialLine, input) =>
        let serial := toUInt64 (strtoll serialLine)
        if input.length < 2 then .done false input inSerial handled
        else
          match splitLine input with
          | none => .outside
          | some (lenLine, input) =>
            let len := toUInt64 (strtoll lenLine)
            if len > input.length then .done false input inSerial handled
            else if len + 1 > input.length then .outside
            else
              let data := input.take (len + 1)
              let input := input.drop len
              if input.head? ≠ some lf then .done false input inSerial handled
              else parseLoop fuel (input.drop 1) serial (handled ++ [data])

/-- `ProxyProtocolHandler::parseEmitIncoming`, with the serial number of the last message. -/
def parseEmitIncoming (inSerial : Nat) (input : Bytes) : Parsed := parseLoop input.length input inSerial []

/-- Some requests one after the other, each with a body of its own; `handleRequest` only logs an
answer false. -/
def handleRequests : Nat → List Bytes → Option (Nat × List Bytes)
  | inSerial, [] => some (inSerial, [])
  | inSerial, body :: bodies =>
    match parseEmitIncoming inSerial body with
    | .outside => none
    | .done _ _ inSerial handled =>
      (handleRequests inSerial bodies).map fun (inSerial, more) => (inSerial, handled ++ more)

/-! ## Writing -/

/-- `ProxyProtocolHandler::Message`. -/
def message (text : Bool) (msg : Bytes) (serial : Nat) : Bytes :=
  let type := if text then typeText else typeBinary
  [type] ++ (ascii "0x" ++ hexBytes serial ++ [lf] ++ ascii "0x" ++ hexBytes msg.length ++ [lf]) ++ msg ++ [lf]

/-! ## Lines -/

theorem splitLine_append {line : Bytes} (h : lf ∉ line) (rest : Bytes) :
    splitLine (line ++ lf :: rest) = some (line, rest) := by
  induction line with
  | nil => rw [List.nil_append, splitLine, if_pos rfl]
  | cons b line ih =>
    rw [List.mem_cons, not_or] at h
    rw [List.cons_append, splitLine, if_neg (fun hb => h.1 hb.symm), ih h.2]
    rfl

theorem eq_of_splitLine {s line rest : Bytes} (h : splitLine s = some (line, rest)) :
    s = line ++ lf :: rest ∧ lf ∉ line := by
  induction s generalizing line with
  | nil => exact absurd h (by simp [splitLine])
  | cons b s ih =>
    rw [splitLine] at h
    split at h
    · next hb =>
      obtain ⟨rfl, rfl⟩ := Prod.mk.inj (Option.some.inj h)
      exact ⟨by rw [hb, List.nil_append], by simp⟩
    · next hb =>
      obtain ⟨⟨l, r⟩, hs, heq⟩ := Option.map_eq_some_iff.mp h
      obtain ⟨rfl, rfl⟩ := Prod.mk.inj heq
      obtain ⟨rfl, hl⟩ := ih hs
      refine ⟨rfl, ?_⟩
      rw [List.mem_cons, not_or]
      exact ⟨fun h => hb h.symm, hl⟩

theorem lf_notMem_number (n : Nat) : lf ∉ ascii "0x" ++ hexBytes n := by
  rw [List.mem_append, not_or]
  refine ⟨by decide, fun h => ?_⟩
  exact absurd (isHexDigit_of_mem_hexBytes h) (by decide)

/-- A length is read where its digits are what is left without white space, sign and mark. -/
theorem strtoll_of_digits {s : Bytes} {n : Nat} (hn : n < 2 ^ 63) (hnul : 0 ∉ s)
    (hspace : s.dropWhile isSpace = s) (hsign : splitSign s = (false, s)) (hmark : dropHexMark s = hexBytes n) :
    strtoll s = n := by
  have hdigits : (hexBytes n).takeWhile isHexDigit = hexBytes n :=
    List.takeWhile_eq_self_iff.mpr fun _ => isHexDigit_of_mem_hexBytes
  rw [strtoll, takeWhile_bne_of_notMem hnul, hspace, hsign]
  dsimp only
  rw [hmark, hdigits, hexValue_hexBytes, if_neg Bool.false_ne_true]
  omega

theorem zero_notMem_hexBytes (n : Nat) : 0 ∉ hexBytes n := fun h =>
  absurd (isHexDigit_of_mem_hexBytes h) (by decide)

/-- **A length is read as it was written.** -/
theorem strtoll_number {n : Nat} (hn : n < 2 ^ 63) : strtoll (ascii "0x" ++ hexBytes n) = n := by
  obtain ⟨d, ds, hds⟩ := List.exists_cons_of_ne_nil (hexBytes_ne_nil n)
  have hhex : isHexDigit d = true := isHexDigit_of_mem_hexBytes (n := n) (by rw [hds]; exact List.mem_cons_self)
  have htext : ascii "0x" ++ hexBytes n = 48 :: 120 :: d :: ds := by
    rw [hds]
    rfl
  apply strtoll_of_digits hn
  · rw [List.mem_append, not_or]
    exact ⟨by decide, zero_notMem_hexBytes n⟩
  · rw [htext]
    rfl
  · rw [htext]
    rfl
  · rw [htext, dropHexMark, if_pos hhex, hds]

theorem toUInt64_of_lt {n : Nat} (hn : n < 2 ^ 63) : toUInt64 n = n := by
  rw [toUInt64]
  omega

theorem message_eq (text : Bool) (msg : Bytes) (serial : Nat) :
    message text msg serial = (if text then typeText else typeBinary) ::
      ((ascii "0x" ++ hexBytes serial) ++ lf :: ((ascii "0x" ++ hexBytes msg.length) ++
        lf :: (msg ++ [lf]))) := by
  simp only [message, List.append_assoc, List.cons_append, List.nil_append]

/-- **A frame is one round of the loop**, and its final newline goes to the handler with the
content. -/
theorem parseLoop_message {msg : Bytes} (hmsg : msg.length < 2 ^ 63) (text : Bool) (serial fuel : Nat)
    (rest : Bytes) (inSerial : Nat) (handled : List Bytes) :
    parseLoop (fuel + 1) (message text msg serial ++ rest) inSerial handled =
      parseLoop fuel rest (toUInt64 (strtoll (ascii "0x" ++ hexBytes serial)))
        (handled ++ [msg ++ [lf]]) := by
  have htype : ¬ ((if text then typeText else typeBinary) ≠ typeText ∧
      (if text then typeText else typeBinary) ≠ typeBinary) := by
    cases text with
    | true => exact fun h => h.1 rfl
    | false => exact fun h => h.2 rfl
  have hlen : (msg ++ lf :: rest).length = msg.length + (rest.length + 1) := List.length_append
  have hdata : (msg ++ lf :: rest).take (msg.length + 1) = msg ++ [lf] := by
    rw [List.take_length_add_append]
    rfl
  rw [message_eq]
  simp only [List.cons_append, List.append_assoc, List.nil_append]
  rw [parseLoop, if_neg, ← List.append_assoc (ascii "0x"), splitLine_append (lf_notMem_number serial)]
  · dsimp only
    rw [if_neg, ← List.append_assoc (ascii "0x"), splitLine_append (lf_notMem_number msg.length)]
    · dsimp only
      rw [strtoll_number hmsg, toUInt64_of_lt hmsg, hlen, if_neg (by omega), if_neg (by omega), hdata,
        List.drop_left, if_neg (by simp)]
      rfl
    · have hne : 0 < (hexBytes msg.length).length := List.length_pos_iff.mpr (hexBytes_ne_nil _)
      simp only [List.length_append, List.length_cons]
      omega
  · rintro (h | h)
    · exact htype h
    · exact absurd h (by simp [ascii])

/-! ## Any input -/

/-- The inputs on which `parseEmitIncoming` stays inside the buffer: whole frames, and then something
that is refused before the end of the input is passed. What is not here is an input that ends in
the serial line or the length line of a frame, or right after the content. -/
inductive Contained : Bytes → Prop
  | empty : Contained []
  | noType {type : UInt8} {rest : Bytes} (hText : type ≠ typeText) (hBinary : type ≠ typeBinary) :
      Contained (type :: rest)
  | typeOnly {type : UInt8} : Contained [type]
  | noLength {type : UInt8} {serialLine rest : Bytes} (hserial : lf ∉ serialLine)
      (hrest : rest.length < 2) : Contained (type :: (serialLine ++ lf :: rest))
  | tooLong {type : UInt8} {serialLine lenLine rest : Bytes} (hserial : lf ∉ serialLine)
      (hlen : lf ∉ lenLine) (hlong : rest.length < toUInt64 (strtoll lenLine)) :
      Contained (type :: (serialLine ++ lf :: (lenLine ++ lf :: rest)))
  | unterminated {type : UInt8} {serialLine lenLine rest : Bytes} (hserial : lf ∉ serialLine)
      (hlen : lf ∉ lenLine) (hfits : toUInt64 (strtoll lenLine) < rest.length)
      (hend : rest[toUInt64 (strtoll lenLine)]? ≠ some lf) :
      Contained (type :: (serialLine ++ lf :: (lenLine ++ lf :: rest)))
  | frame {type : UInt8} {serialLine lenLine rest : Bytes} (hserial : lf ∉ serialLine)
      (hlen : lf ∉ lenLine) (hend : rest[toUInt64 (strtoll lenLine)]? = some lf)
      (more : Contained (rest.drop (toUInt64 (strtoll lenLine) + 1))) :
      Contained (type :: (serialLine ++ lf :: (lenLine ++ lf :: rest)))

/-- The loop came to an answer. -/
def Parsed.Done : Parsed → Prop
  | .outside => False
  | .done _ _ _ _ => True

theorem done_of_contained {input : Bytes} (h : Contained input) {fuel : Nat} (hfuel : input.length ≤ fuel)
    (inSerial : Nat) (handled : List Bytes) : (parseLoop fuel input inSerial handled).Done := by
  induction h generalizing fuel inSerial handled with
  | empty => cases fuel <;> trivial
  | noType hText hBinary =>
    obtain ⟨fuel, rfl⟩ : ∃ n, fuel = n + 1 := ⟨fuel - 1, by rw [List.length_cons] at hfuel; omega⟩
    rw [parseLoop, if_pos (Or.inl ⟨hText, hBinary⟩)]
    trivial
  | typeOnly =>
    obtain ⟨fuel, rfl⟩ : ∃ n, fuel = n + 1 := ⟨fuel - 1, by rw [List.length_cons] at hfuel; omega⟩
    rw [parseLoop, if_pos (Or.inr rfl)]
    trivial
  | noLength hserial hrest =>
    obtain ⟨fuel, rfl⟩ : ∃ n, fuel = n + 1 := ⟨fuel - 1, by rw [List.length_cons] at hfuel; omega⟩
    rw [parseLoop]
    split
    · trivial
    · rw [splitLine_append hserial]
      dsimp only
      rw [if_pos hrest]
      trivial
  | tooLong hserial hlen hlong =>
    obtain ⟨fuel, rfl⟩ : ∃ n, fuel = n + 1 := ⟨fuel - 1, by rw [List.length_cons] at hfuel; omega⟩
    rw [parseLoop]
    split
    · trivial
    · rw [splitLine_append hserial]
      dsimp only
      split
      · trivial
      · rw [splitLine_append hlen]
        dsimp only
        rw [if_pos hlong]
        trivial
  | unterminated hserial hlen hfits hend =>
    obtain ⟨fuel, rfl⟩ : ∃ n, fuel = n + 1 := ⟨fuel - 1, by rw [List.length_cons] at hfuel; omega⟩
    rw [parseLoop]
    split
    · trivial
    · rw [splitLine_append hserial]
      dsimp only
      split
      · trivial
      · rw [splitLine_append hlen]
        dsimp only
        rw [if_neg (by omega), if_neg (by omega), if_pos (by rwa [List.head?_drop])]
        trivial
  | @frame type serialLine lenLine rest hserial hlen hend more ih =>
    obtain ⟨fuel, rfl⟩ : ∃ n, fuel = n + 1 := ⟨fuel - 1, by rw [List.length_cons] at hfuel; omega⟩
    obtain ⟨hfits, -⟩ := List.getElem?_eq_some_iff.mp hend
    rw [parseLoop]
    split
    · trivial
    · rw [splitLine_append hserial]
      dsimp only
      split
      · trivial
      · rw [splitLine_append hlen]
        dsimp only
        rw [if_neg (by omega), if_neg (by omega), if_neg (by rw [List.head?_drop]; exact not_not.mpr hend),
          List.drop_drop]
        refine ih ?_ _ _
        simp only [List.length_cons, List.length_append, List.length_drop] at hfuel ⊢
        omega

theorem contained_of_done {fuel : Nat} {input : Bytes} {inSerial : Nat} {handled : List Bytes}
    (hfuel : input.length ≤ fuel) (h : (parseLoop fuel input inSerial handled).Done) :
    Contained input := by
  induction fuel generalizing input inSerial handled with
  | zero =>
    obtain rfl : input = [] := List.eq_nil_of_length_eq_zero (by omega)
    exact .empty
  | succ fuel ih =>
    cases input with
    | nil => exact .empty
    | cons type rest =>
      rw [parseLoop] at h
      split at h
      · next hstop =>
        rcases hstop with ⟨hText, hBinary⟩ | rfl
        · exact .noType hText hBinary
        · exact .typeOnly
      · split at h
        · exact absurd h id
        · next serialLine input hsplit =>
          obtain ⟨rfl, hserial⟩ := eq_of_splitLine hsplit
          dsimp only at h
          split at h
          · next hshort => exact .noLength hserial hshort
          · split at h
            · exact absurd h id
            · next lenLine rest hsplit =>
              obtain ⟨rfl, hlen⟩ := eq_of_splitLine hsplit
              split at h
              · next hlong => exact .tooLong hserial hlen hlong
              · split at h
                · exact absurd h id
                · next hfits =>
                  rw [List.head?_drop] at h
                  split at h
                  · next hend => exact .unterminated hserial hlen (by omega) hend
                  · next hend =>
                    rw [List.drop_drop] at h
                    refine .frame hserial hlen (not_not.mp hend) (ih ?_ h)
                    simp only [List.length_cons, List.length_append, List.length_drop] at hfuel ⊢
                    omega

/-- **`parseEmitIncoming` stays inside the buffer** on these inputs only. -/
theorem parseEmitIncoming_done_iff (inSerial : Nat) (input : Bytes) :
    (parseEmitIncoming inSerial input).Done ↔ Contained input :=
  ⟨contained_of_done (Nat.le_refl _), fun h => done_of_contained h (Nat.le_refl _) _ _⟩

end Oxool.Proxy
