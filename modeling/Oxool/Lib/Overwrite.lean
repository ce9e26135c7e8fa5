import Mathlib.Data.List.Basic
import Mathlib.Tactic

/-!
# Overwriting part of a list

`overwrite l i new` puts `new` over the elements of `l` from `i` on. The lemmas say how it
relates to the two ways an array is filled in practice: one element at a time, and row by row in
a row-major matrix kept as one flat list. Nothing here depends on what the elements are.
-/

set_option autoImplicit false

namespace Oxool

variable {α : Type}

/-- `l` with `new` written from index `i` on. -/
def overwrite (l : List α) (i : Nat) (new : List α) : List α :=
  l.take i ++ new ++ l.drop (i + new.length)

@[simp] theorem overwrite_nil (l : List α) (i : Nat) : overwrite l i [] = l := by
  simp [overwrite]

theorem length_overwrite {l : List α} {i : Nat} {new : List α} (h : i + new.length ≤ l.length) :
    (overwrite l i new).length = l.length := by
  simp only [overwrite, List.length_append, List.length_take, List.length_drop]
  omega

theorem overwrite_append {pre mid post new : List α} (h : new.length = mid.length) :
    overwrite (pre ++ mid ++ post) pre.length new = pre ++ new ++ post := by
  rw [overwrite, h, List.append_assoc pre mid post, List.take_left,
    ← List.append_assoc, ← List.length_append, List.drop_left]

/-- Overwriting with one more element at the end is one more `set`. -/
theorem overwrite_concat {l : List α} {i : Nat} {new : List α} {a : α}
    (h : i + new.length < l.length) :
    overwrite l i (new ++ [a]) = (overwrite l i new).set (i + new.length) a := by
  have hlen : (l.take i ++ new).length = i + new.length := by
    rw [List.length_append, List.length_take, Nat.min_eq_left (by omega)]
  rw [overwrite, overwrite, List.set_append_right _ _ (by omega), hlen, Nat.sub_self,
    List.drop_eq_getElem_cons h, List.set_cons_zero]
  simp [Nat.add_assoc]

theorem take_overwrite {l : List α} {i : Nat} {new : List α} (h : i ≤ l.length) :
    (overwrite l i new).take (i + new.length) = l.take i ++ new := by
  have hlen : (l.take i ++ new).length = i + new.length := by
    rw [List.length_append, List.length_take, Nat.min_eq_left h]
  rw [overwrite, ← hlen, List.take_left]

/-- The first of the elements written. -/
theorem take_overwrite_within {l : List α} {i k : Nat} {new : List α} (h : i ≤ l.length)
    (hk : k ≤ new.length) : (overwrite l i new).take (i + k) = l.take i ++ new.take k := by
  have hlen : (l.take i).length = i := List.length_take_of_le h
  calc (overwrite l i new).take (i + k)
      = ((overwrite l i new).take (i + new.length)).take (i + k) := by
        rw [List.take_take, Nat.min_eq_left (Nat.add_le_add_left hk i)]
    _ = (l.take i ++ new).take ((l.take i).length + k) := by rw [take_overwrite h, hlen]
    _ = l.take i ++ new.take k := List.take_length_add_append k

theorem drop_overwrite {l : List α} {i : Nat} {new : List α} (h : i ≤ l.length) :
    (overwrite l i new).drop (i + new.length) = l.drop (i + new.length) := by
  have hlen : (l.take i ++ new).length = i + new.length := by
    rw [List.length_append, List.length_take, Nat.min_eq_left h]
  rw [overwrite, ← hlen, List.drop_left, hlen]

/-- Two writes, one right after the other, are one. -/
theorem overwrite_overwrite {l : List α} {i : Nat} {new more : List α} (h : i ≤ l.length) :
    overwrite (overwrite l i new) (i + new.length) more = overwrite l i (new ++ more) := by
  rw [overwrite, take_overwrite h, ← List.drop_drop, drop_overwrite h, List.drop_drop, overwrite,
    List.length_append]
  simp only [List.append_assoc, Nat.add_assoc]

/-- What was in front of a list does not matter for a write behind it. -/
theorem overwrite_drop {l : List α} {o i : Nat} {new : List α} (h : o ≤ l.length) :
    (overwrite l (o + i) new).drop o = overwrite (l.drop o) i new := by
  have hle : o ≤ (l.take (o + i)).length := by
    rw [List.length_take]
    omega
  rw [overwrite, List.append_assoc, List.drop_append_of_le_length hle, List.drop_take, overwrite,
    Nat.add_sub_cancel_left, List.drop_drop, List.append_assoc, Nat.add_assoc]

/-! ## Row-major matrices -/

section Rows

variable {rows : List (List α)} {w : Nat}

theorem length_flatten_uniform (h : ∀ r ∈ rows, r.length = w) :
    rows.flatten.length = rows.length * w := by
  induction rows with
  | nil => simp
  | cons r rs ih =>
    rw [List.flatten_cons, List.length_append, h r List.mem_cons_self,
      ih fun r hr => h r (List.mem_cons_of_mem _ hr), List.length_cons, Nat.succ_mul]
    omega

theorem take_flatten_uniform (h : ∀ r ∈ rows, r.length = w) (y : Nat) :
    rows.flatten.take (y * w) = (rows.take y).flatten := by
  induction rows generalizing y with
  | nil => simp
  | cons r rs ih =>
    cases y with
    | zero => simp
    | succ y =>
      have hr : r.length = w := h r List.mem_cons_self
      have hle : (y + 1) * w = r.length + y * w := by rw [Nat.succ_mul, hr]; omega
      rw [List.flatten_cons, hle, List.take_length_add_append,
        ih (fun r hr => h r (List.mem_cons_of_mem _ hr)), List.take_succ_cons, List.flatten_cons]

theorem drop_flatten_uniform (h : ∀ r ∈ rows, r.length = w) (y : Nat) :
    rows.flatten.drop (y * w) = (rows.drop y).flatten := by
  induction rows generalizing y with
  | nil => simp
  | cons r rs ih =>
    cases y with
    | zero => simp
    | succ y =>
      have hr : r.length = w := h r List.mem_cons_self
      have hle : (y + 1) * w = r.length + y * w := by rw [Nat.succ_mul, hr]; omega
      rw [List.flatten_cons, hle, List.drop_length_add_append,
        ih (fun r hr => h r (List.mem_cons_of_mem _ hr)), List.drop_succ_cons]

/-- Row `y` of the flat list. -/
theorem row_flatten_uniform (h : ∀ r ∈ rows, r.length = w) {y : Nat} (hy : y < rows.length) :
    (rows.flatten.drop (y * w)).take w = rows[y] := by
  have hr : (rows[y]).length = w := h _ (List.getElem_mem hy)
  rw [drop_flatten_uniform h, List.drop_eq_getElem_cons hy, List.flatten_cons]
  conv_lhs => rw [← hr]
  exact List.take_left

/-- Writing inside row `y` of the flat list writes inside row `y` of the matrix. -/
theorem overwrite_flatten_uniform (h : ∀ r ∈ rows, r.length = w) {y x : Nat} {new : List α}
    (hy : y < rows.length) (hx : x + new.length ≤ w) :
    overwrite rows.flatten (y * w + x) new = (rows.set y (overwrite rows[y] x new)).flatten := by
  have hr : (rows[y]).length = w := h _ (List.getElem_mem hy)
  have hpre : ((rows.take y).flatten).length = y * w := by
    rw [length_flatten_uniform (fun r hr => h r (List.mem_of_mem_take hr)), List.length_take,
      Nat.min_eq_left (Nat.le_of_lt hy)]
  have hsplit : rows.flatten =
      ((rows.take y).flatten ++ (rows[y]).take x) ++ ((rows[y]).drop x).take new.length ++
        ((rows[y]).drop (x + new.length) ++ (rows.drop (y + 1)).flatten) := by
    conv_lhs => rw [← List.take_append_drop y rows, List.flatten_append,
      List.drop_eq_getElem_cons hy, List.flatten_cons,
      ← List.take_append_drop x rows[y], ← List.take_append_drop new.length ((rows[y]).drop x)]
    rw [List.drop_drop]
    simp only [List.append_assoc]
  have hmid : new.length = (((rows[y]).drop x).take new.length).length := by
    rw [List.length_take, List.length_drop]
    omega
  have hlen : ((rows.take y).flatten ++ (rows[y]).take x).length = y * w + x := by
    rw [List.length_append, hpre, List.length_take]
    omega
  rw [hsplit, ← hlen, overwrite_append hmid, List.set_eq_take_append_cons_drop, if_pos hy,
    List.flatten_append, List.flatten_cons, overwrite]
  simp only [List.append_assoc]

end Rows

end Oxool
