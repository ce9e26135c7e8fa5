import Oxool.Net.Http.Response

/-!
# The transfer of a body

What receiving a body should come to, said without the reader: `Transfer` follows the bytes after
the header of a successful response, by the framing the header announces. A size line that is not
a hex number fails a chunked transfer, and a body of `n` bytes is the first `n` bytes.

`regular` says that the stream kept to the framing so far. It is lost at a size line that is no hex
number, and at a read that goes beyond an announced length.
-/

set_option autoImplicit false

namespace Oxool.Http

/-! ## The transfer -/

def isHexDigit (b : UInt8) : Bool := (hexDigitFromChar b).isSome

/-- The value of `n` followed by more digits. -/
def hexFrom (n : Nat) (digits : Bytes) : Nat :=
  digits.foldl (fun n b => n * 16 + (hexDigitFromChar b).getD 0) n

def hexValue (digits : Bytes) : Nat := hexFrom 0 digits

/-- What may follow the digits of a chunk size: blanks, and then the end of the line or an
extension. -/
def validTail (tail : Bytes) : Bool :=
  match tail.dropWhile fun b => b == 32 || b == 9 with
  | [] => true
  | b :: bs => b == 59 || (b == cr && bs == [])

/-- A chunk-size line, without its LF. -/
inductive SizeLine
  | size (n : Nat)
  | tooLarge
  | invalid
deriving DecidableEq

def sizeLine (line : Bytes) : SizeLine :=
  let digits := line.takeWhile isHexDigit
  if hexValue digits.dropLast ≥ (2 ^ 63 - 1) / 16 then .tooLarge
  else if digits = [] ∨ validTail (line.drop digits.length) = false then .invalid
  else .size (hexValue digits)

inductive Status
  | receiving
  | complete
  | failed
deriving DecidableEq

/-- How the header says the body is framed. -/
inductive Announced
  | none
  | chunked
  | length (n : Nat)
  | untilClose
  | contradictory
deriving DecidableEq

/-- A transfer under way: bytes that wait for more, the body so far, and whether the stream has
kept to the framing. -/
structure Transfer where
  pending : Bytes
  data : Bytes
  status : Status
  regular : Bool
deriving DecidableEq

namespace Transfer

/-- Handing a piece of the body to a sink that may refuse it. -/
def deliver (accepts : Bytes → Bytes → Bool) (t : Transfer) (piece : Bytes) : Transfer :=
  { t with
    data := t.data ++ piece
    status := if accepts t.data piece then t.status else .failed }

/-- The chunks of the data at hand. A chunk is taken once it and the two bytes that end it are
there. -/
def chunks (accepts : Bytes → Bytes → Bool) : Nat → Transfer → Bytes → Transfer
  | 0, t, p => { t with pending := p }
  | fuel + 1, t, p =>
    let line := p.takeWhile (· != lf)
    if line = p then { t with pending := p }
    else
      match sizeLine line with
      | .tooLarge => { t with status := .failed }
      | .invalid => { t with status := .failed, regular := false }
      | .size 0 => { t with pending := [], status := .complete }
      | .size (n + 1) =>
        let q := p.drop (line.length + 1)
        if q.length < n + 1 + 2 then { t with pending := p }
        else
          let t := t.deliver accepts (q.take (n + 1))
          if t.status = .failed then t else chunks accepts fuel t (skipCRLF (q.drop (n + 1)))

/-- The data at hand of a body of `n` bytes. -/
def upTo (accepts : Bytes → Bytes → Bool) (n : Nat) (t : Transfer) (p : Bytes) : Transfer :=
  if p = [] then t
  else
    let missing := n - t.data.length
    let t := { t with regular := t.regular && decide (p.length ≤ missing) }
    let t := t.deliver accepts (p.take missing)
    if t.status = .failed then t
    else if n ≤ t.data.length then { t with status := .complete } else t

/-- The data at hand, by the framing of the body. -/
def body (accepts : Bytes → Bytes → Bool) (a : Announced) (t : Transfer) (p : Bytes) : Transfer :=
  match a with
  | .none => { t with status := .complete }
  | .chunked => chunks accepts (p.length + 1) t p
  | .length n => upTo accepts n t p
  | .untilClose => if p = [] then t else t.deliver accepts p
  | .contradictory => { t with status := .failed }

/-- More data: what was pending and the new bytes. -/
def step (accepts : Bytes → Bytes → Bool) (a : Announced) (t : Transfer) (p : Bytes) : Transfer :=
  if t.status ≠ .receiving then t
  else body accepts a { t with pending := [] } (t.pending ++ p)

def start : Transfer := ⟨[], [], .receiving, true⟩

/-- The whole transfer: the bytes that came with the end of the header, then one read after the
other. -/
def run (accepts : Bytes → Bytes → Bool) (a : Announced) (first : Bytes) (reads : List Bytes) :
    Transfer :=
  reads.foldl (step accepts a) (start.step accepts a first)

end Transfer

/-- What the header of a response announces. A 1xx, a 204 and a 304 have no body, whatever the
header says. -/
def announced (code : Nat) (h : Header) : Announced :=
  if 100 ≤ code ∧ code < 200 ∨ code = 204 ∨ code = 304 then .none
  else if h.hasContentLength then
    match h.getContentLength with
    | .none => .contradictory
    | some n =>
      if h.getTransferEncoding ≠ [] then .contradictory else if n = 0 then .none else .length n
  else if h.chunked then .chunked
  else .untilClose

/-! ## Size lines -/

theorem hexDigit_ne_lf : ∀ {b : UInt8}, isHexDigit b = true → (b != lf) = true :=
  @(forall_byte (by decide +kernel))

/-- The digits of a size line are those at the front of the data. -/
theorem takeWhile_line (p : Bytes) :
    (p.takeWhile (· != lf)).takeWhile isHexDigit = p.takeWhile isHexDigit := by
  induction p with
  | nil => rfl
  | cons b bs ih =>
    cases hb : isHexDigit b with
    | false => by_cases hlf : (b != lf) = true <;> simp [hb, hlf]
    | true => simp [hb, hexDigit_ne_lf hb, ih]

theorem le_hexFrom (digits : Bytes) : ∀ n : Nat, n ≤ hexFrom n digits := by
  induction digits with
  | nil => exact fun n => Nat.le_refl n
  | cons b bs ih =>
    intro n
    have hstep : n ≤ n * 16 + (hexDigitFromChar b).getD 0 := by omega
    exact Nat.le_trans hstep (ih _)

/-- The length loop gives up exactly when the digits before the last one are too many. -/
theorem chunkLength_eq (p : Bytes) : ∀ n : Nat,
    Response.chunkLength n p =
      if p.takeWhile isHexDigit ≠ [] ∧
          hexFrom n (p.takeWhile isHexDigit).dropLast ≥ (2 ^ 63 - 1) / 16 then none
      else some (hexFrom n (p.takeWhile isHexDigit)) := by
  induction p with
  | nil => intro n; rfl
  | cons b bs ih =>
    intro n
    rw [Response.chunkLength]
    cases hb : hexDigitFromChar b with
    | none => simp [isHexDigit, hb, hexFrom]
    | some d =>
      have hhex : isHexDigit b = true := by rw [isHexDigit, hb]; rfl
      have hcons : ∀ ds, hexFrom n (b :: ds) = hexFrom (n * 16 + d) ds := by
        intro ds
        simp [hexFrom, hb]
      rw [List.takeWhile_cons_of_pos hhex, hcons]
      dsimp only
      by_cases hbig : n ≥ (2 ^ 63 - 1) / 16
      · rw [if_pos hbig, if_pos ⟨by simp, Nat.le_trans hbig (le_hexFrom _ n)⟩]
      · rw [if_neg hbig, ih]
        cases htail : bs.takeWhile isHexDigit with
        | nil =>
          rw [if_neg (by simp), if_neg]
          exact fun h => hbig h.2
        | cons c cs =>
          rw [show (b :: c :: cs).dropLast = b :: (c :: cs).dropLast from rfl, hcons]
          simp

/-- The reader's number for a size line, and whether it has one. -/
theorem sizeLine_cases (p : Bytes) :
    match sizeLine (p.takeWhile (· != lf)) with
    | .tooLarge => Response.chunkLength 0 p = none
    | .invalid => ∃ n, Response.chunkLength 0 p = some n
    | .size n => Response.chunkLength 0 p = some n := by
  have hlen := chunkLength_eq p 0
  unfold sizeLine
  simp only [takeWhile_line]
  by_cases hbig : hexValue (p.takeWhile isHexDigit).dropLast ≥ (2 ^ 63 - 1) / 16
  · have hne : p.takeWhile isHexDigit ≠ [] := fun h => absurd hbig (by rw [h]; decide)
    rw [if_pos hbig]
    exact hlen.trans (if_pos ⟨hne, hbig⟩)
  · rw [if_neg hbig]
    have hsome := hlen.trans (if_neg fun h => hbig h.2)
    split
    · rename_i hs
      split at hs <;> simp at hs
    · exact ⟨_, hsome⟩
    · rename_i hs
      split at hs
      · simp at hs
      · rw [hsome, ← SizeLine.size.inj hs]
        rfl

/-! ## One round of the transfer -/

theorem chunks_wait (accepts : Bytes → Bytes → Bool) (fuel : Nat) (t : Transfer) {p : Bytes}
    (hline : p.takeWhile (· != lf) = p) : t.chunks accepts (fuel + 1) p = { t with pending := p } := by
  rw [Transfer.chunks]
  dsimp only
  rw [if_pos hline]

theorem chunks_zero (accepts : Bytes → Bytes → Bool) (fuel : Nat) (t : Transfer) {p : Bytes}
    (hline : p.takeWhile (· != lf) ≠ p)
    (hsize : sizeLine (p.takeWhile (· != lf)) = .size 0) :
    t.chunks accepts (fuel + 1) p = { t with pending := [], status := .complete } := by
  rw [Transfer.chunks]
  dsimp only
  rw [if_neg hline, hsize]

theorem chunks_size (accepts : Bytes → Bytes → Bool) (fuel : Nat) (t : Transfer) {p : Bytes} {n : Nat}
    (hline : p.takeWhile (· != lf) ≠ p)
    (hsize : sizeLine (p.takeWhile (· != lf)) = .size (n + 1)) :
    t.chunks accepts (fuel + 1) p =
      let q := p.drop ((p.takeWhile (· != lf)).length + 1)
      if q.length < n + 1 + 2 then { t with pending := p }
      else if (t.deliver accepts (q.take (n + 1))).status = .failed then
        t.deliver accepts (q.take (n + 1))
      else
        (t.deliver accepts (q.take (n + 1))).chunks accepts fuel (skipCRLF (q.drop (n + 1))) := by
  rw [Transfer.chunks]
  dsimp only
  rw [if_neg hline, hsize]

end Oxool.Http
