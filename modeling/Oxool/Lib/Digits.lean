import Mathlib.Data.List.Basic

/-!
# Numbers written in digits

`Nat.toDigits` as an encoding: whatever the digits are turned into, a reader that gives each one
its value back reads the number.
-/

set_option autoImplicit false

namespace Oxool

section Digits

variable {α : Type} {b : Nat} (enc : Char → α)

/-- The number some digits stand for, read from the left. -/
def readDigits (b : Nat) (val : α → Nat) (ds : List α) : Nat := ds.foldl (fun n a => n * b + val a) 0

theorem mem_toDigits (hb : 1 < b) (n : Nat) :
    ∀ a ∈ (Nat.toDigits b n).map enc, ∃ d < b, a = enc (Nat.digitChar d) := by
  induction n using Nat.strongRecOn with
  | _ n ih =>
    intro a ha
    by_cases hn : n < b
    · rw [Nat.toDigits_of_lt_base hn, List.map_singleton, List.mem_singleton] at ha
      exact ⟨n, hn, ha⟩
    · have hle : b ≤ n := Nat.le_of_not_lt hn
      rw [Nat.toDigits_of_base_le hb hle, List.map_append, List.mem_append] at ha
      cases ha with
      | inl ha => exact ih (n / b) (Nat.div_lt_self (by omega) hb) a ha
      | inr ha =>
        rw [List.map_singleton, List.mem_singleton] at ha
        exact ⟨n % b, Nat.mod_lt n (by omega), ha⟩

/-- **Reading what was written.** -/
theorem readDigits_toDigits (hb : 1 < b) {val : α → Nat}
    (hval : ∀ d < b, val (enc (Nat.digitChar d)) = d) (n : Nat) :
    readDigits b val ((Nat.toDigits b n).map enc) = n := by
  induction n using Nat.strongRecOn with
  | _ n ih =>
    by_cases hn : n < b
    · rw [Nat.toDigits_of_lt_base hn]
      simp [readDigits, hval n hn]
    · have hle : b ≤ n := Nat.le_of_not_lt hn
      have hread := ih (n / b) (Nat.div_lt_self (by omega) hb)
      rw [Nat.toDigits_of_base_le hb hle, List.map_append, readDigits, List.foldl_append]
      rw [readDigits] at hread
      rw [hread, List.map_singleton, List.foldl_cons, List.foldl_nil,
        hval _ (Nat.mod_lt n (by omega)), Nat.div_add_mod']

end Digits

end Oxool
