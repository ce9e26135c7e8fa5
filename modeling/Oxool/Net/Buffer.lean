import Mathlib.Data.List.Basic
import Mathlib.Tactic

/-!
# `Buffer` (`net/Buffer.hpp`)

The socket's input and output buffer: a vector and the offset of its first live byte. Erasing
from the front usually shuffles the vector down, but for a large buffer only the offset moves. The
rest of the development reads a buffer as the list of its live bytes, and the lemmas below are all
it knows about the two representations.
-/

set_option autoImplicit false

namespace Oxool.Net

structure Buffer where
  offset : Nat
  buffer : List UInt8
  offset_le : offset ≤ buffer.length
deriving DecidableEq

namespace Buffer

/-- `Buffer()` and `clear()`. -/
def empty : Buffer := ⟨0, [], Nat.le_refl _⟩

def size (b : Buffer) : Nat := b.buffer.length - b.offset

/-- `operator[]`; `none` is an index outside the vector. -/
def get? (b : Buffer) (index : Nat) : Option UInt8 := b.buffer[b.offset + index]?

/-- The range insertion at the end that both overloads of `append` make. -/
def insertEnd (b : Buffer) (data : List UInt8) : Buffer :=
  { b with
    buffer := b.buffer ++ data
    offset_le := by rw [List.length_append]; exact Nat.le_add_right_of_le b.offset_le }

/-- `append(const char *data, const int len)`. The length arrives as an `int`: what the caller
passes is cut to 32 bits, and a negative length is a range that ends before it starts (`none`). -/
def append (b : Buffer) (data : List UInt8) (len : Nat) : Option Buffer :=
  let n := len % 2 ^ 32
  if n < 2 ^ 31 then some (b.insertEnd (data.take n)) else none

/-- `eraseFirst`. -/
def eraseFirst (b : Buffer) (len : Nat) : Buffer :=
  if len = 0 then b
  else
    let len := min len b.size
    if h : b.buffer.length > 16384 ∧ len < b.size ∧ b.offset < 16384 * 64 ∧ b.size > 512 then
      { b with
        offset := b.offset + len
        offset_le := by have := h.2.1; unfold size at this; omega }
    else ⟨0, b.buffer.drop (b.offset + len), Nat.zero_le _⟩

/-- `erase(first, last)`, from two offsets. -/
def erase (b : Buffer) (first last : Nat) : Buffer :=
  if first = 0 then b.eraseFirst last
  else
    ⟨b.offset, b.buffer.take (b.offset + first) ++ b.buffer.drop (b.offset + last), by
      rw [List.length_append, List.length_take]
      have := b.offset_le
      omega⟩

/-- The live bytes. -/
def bytes (b : Buffer) : List UInt8 := b.buffer.drop b.offset

@[simp] theorem bytes_empty : empty.bytes = [] := rfl

@[simp] theorem length_bytes (b : Buffer) : b.bytes.length = b.size := List.length_drop

@[simp] theorem get?_eq (b : Buffer) (i : Nat) : b.get? i = b.bytes[i]? := by
  rw [get?, bytes, List.getElem?_drop]

@[simp] theorem bytes_insertEnd (b : Buffer) (data : List UInt8) :
    (b.insertEnd data).bytes = b.bytes ++ data := by
  rw [bytes, insertEnd, List.drop_append_of_le_length b.offset_le]
  rfl

theorem insertEnd_insertEnd (b : Buffer) (data more : List UInt8) :
    (b.insertEnd data).insertEnd more = b.insertEnd (data ++ more) := by
  simp [insertEnd]

theorem insertEnd_nil (b : Buffer) : b.insertEnd [] = b := by
  simp [insertEnd]

theorem append_eq {data : List UInt8} (b : Buffer) (h : data.length < 2 ^ 31) :
    b.append data data.length = some (b.insertEnd data) := by
  have hmod : data.length % 2 ^ 32 = data.length := Nat.mod_eq_of_lt (by omega)
  simp only [append, hmod]
  rw [if_pos h, List.take_of_length_le (Nat.le_refl _)]

/-- **Both representations erase the same bytes.** -/
@[simp] theorem bytes_eraseFirst (b : Buffer) (n : Nat) :
    (b.eraseFirst n).bytes = b.bytes.drop n := by
  unfold eraseFirst
  by_cases hn : n = 0
  · rw [if_pos hn, hn, List.drop_zero]
  · rw [if_neg hn]
    have hlen : b.bytes.drop (min n b.size) = b.bytes.drop n := by
      rcases Nat.le_total n b.size with h | h
      · rw [Nat.min_eq_left h]
      · rw [Nat.min_eq_right h, List.drop_eq_nil_of_le (by simp), List.drop_eq_nil_of_le (by simpa)]
    have hdrop : b.buffer.drop (b.offset + min n b.size) = b.bytes.drop n := by
      rw [← hlen, bytes, List.drop_drop]
    dsimp only
    split
    · exact hdrop
    · exact hdrop

theorem bytes_erase (b : Buffer) (first last : Nat) :
    (b.erase first last).bytes = b.bytes.take first ++ b.bytes.drop last := by
  unfold erase
  by_cases hfirst : first = 0
  · rw [if_pos hfirst, bytes_eraseFirst, hfirst, List.take_zero, List.nil_append]
  · rw [if_neg hfirst]
    have hle : b.offset ≤ (b.buffer.take (b.offset + first)).length := by
      rw [List.length_take]
      have := b.offset_le
      omega
    simp only [bytes]
    rw [List.drop_append_of_le_length hle, List.drop_take, List.drop_drop]
    congr 2
    omega

end Buffer

end Oxool.Net
