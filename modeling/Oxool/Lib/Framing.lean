import Mathlib.Data.List.Basic

/-!
# Self-delimiting items in a byte stream

A receiver that keeps what it could not use yet and tries again when more arrives is correct for
one reason: what it takes from the front of a buffer does not depend on what follows. `Framing`
states that reason for one item, and the section below draws the consequence for a whole stream:
the items found do not depend on where the stream was cut.
-/

set_option autoImplicit false

namespace Oxool

/-- The first `n` elements and the rest, when there are that many. -/
def takeExactly {β : Type} (n : Nat) (bs : List β) : Option (List β × List β) :=
  if bs.length < n then none else some (bs.take n, bs.drop n)

theorem takeExactly_eq_some {β : Type} {n : Nat} {bs a rest : List β} :
    takeExactly n bs = some (a, rest) ↔ bs = a ++ rest ∧ a.length = n := by
  unfold takeExactly
  constructor
  · intro h
    split at h
    · exact absurd h (by simp)
    · rename_i hn
      obtain ⟨rfl, rfl⟩ := Prod.mk.inj (Option.some.inj h)
      exact ⟨(List.take_append_drop n bs).symm, List.length_take_of_le (Nat.le_of_not_lt hn)⟩
  · rintro ⟨rfl, rfl⟩
    rw [if_neg (by simp), List.take_left, List.drop_left]

theorem takeExactly_eq_none {β : Type} {n : Nat} {bs : List β} :
    takeExactly n bs = none ↔ bs.length < n := by
  simp [takeExactly]

/-- A way to take one item off the front of a buffer. `none` means the item is not complete; a
complete item is the same item whatever is appended, and it is never empty. -/
structure Framing (β ι : Type) where
  next : List β → Option (ι × List β)
  shorter : ∀ {bs : List β} {i : ι} {rest : List β},
    next bs = some (i, rest) → rest.length < bs.length
  stable : ∀ {bs : List β} {i : ι} {rest : List β},
    next bs = some (i, rest) → ∀ more, next (bs ++ more) = some (i, rest ++ more)

namespace Framing

variable {β ι : Type} (F : Framing β ι)

/-- Up to `n` items off the front, and what is left. -/
def splitN : Nat → List β → List ι × List β
  | 0, bs => ([], bs)
  | n + 1, bs =>
    match F.next bs with
    | none => ([], bs)
    | some (i, rest) =>
      let (is, rest) := splitN n rest
      (i :: is, rest)

/-- The complete items of a stream. -/
def items (bs : List β) : List ι := (F.splitN bs.length bs).1

/-- What follows the complete items of a stream. -/
def pending (bs : List β) : List β := (F.splitN bs.length bs).2

theorem next_nil : F.next [] = none := by
  cases hb : F.next [] with
  | none => rfl
  | some p => exact absurd (F.shorter hb) (by simp)

/-- A stream has at most as many items as it has elements, so any larger bound finds the same. -/
theorem splitN_enough : ∀ (n m : Nat) (bs : List β), bs.length ≤ n → bs.length ≤ m →
    F.splitN n bs = F.splitN m bs := by
  intro n
  induction n with
  | zero =>
    intro m bs hn _
    rw [List.length_eq_zero_iff.mp (Nat.le_zero.mp hn)]
    cases m <;> simp [splitN, F.next_nil]
  | succ n ih =>
    intro m bs hn hm
    cases hb : F.next bs with
    | none => cases m <;> simp [splitN, hb]
    | some p =>
      obtain ⟨i, rest⟩ := p
      have hlt := F.shorter hb
      obtain ⟨k, rfl⟩ : ∃ k, m = k + 1 := ⟨m - 1, by omega⟩
      simp only [splitN, hb]
      rw [ih k rest (by omega) (by omega)]

variable {F}

theorem items_of_none {bs : List β} (h : F.next bs = none) : F.items bs = [] := by
  unfold items
  cases bs.length <;> simp [splitN, h]

theorem pending_of_none {bs : List β} (h : F.next bs = none) : F.pending bs = bs := by
  unfold pending
  cases bs.length <;> simp [splitN, h]

theorem splitN_of_some {bs rest : List β} {i : ι} (h : F.next bs = some (i, rest)) :
    F.splitN bs.length bs = (i :: F.items rest, F.pending rest) := by
  have hlt := F.shorter h
  obtain ⟨k, hk⟩ : ∃ k, bs.length = k + 1 := ⟨bs.length - 1, by omega⟩
  rw [hk, splitN, h]
  show ((i :: (F.splitN k rest).1, (F.splitN k rest).2) : List ι × List β) = _
  rw [F.splitN_enough k rest.length rest (by omega) (Nat.le_refl _)]
  rfl

theorem items_of_some {bs rest : List β} {i : ι} (h : F.next bs = some (i, rest)) :
    F.items bs = i :: F.items rest := by
  rw [items, splitN_of_some h]

theorem pending_of_some {bs rest : List β} {i : ι} (h : F.next bs = some (i, rest)) :
    F.pending bs = F.pending rest := by
  rw [pending, splitN_of_some h]

/-- Induction along the items of a stream. -/
theorem stream_induction {motive : List β → Prop}
    (none : ∀ bs, F.next bs = none → motive bs)
    (some : ∀ bs i rest, F.next bs = some (i, rest) → motive rest → motive bs) :
    ∀ bs, motive bs := by
  intro bs
  induction hn : bs.length using Nat.strongRecOn generalizing bs with
  | _ n ih =>
    cases hb : F.next bs with
    | none => exact none bs hb
    | some p => exact some bs p.1 p.2 hb (ih _ (hn ▸ F.shorter hb) p.2 rfl)

variable (F)

/-- What follows the complete items holds no complete item. -/
theorem next_pending (bs : List β) : F.next (F.pending bs) = none := by
  induction bs using F.stream_induction with
  | none bs h => rw [pending_of_none h, h]
  | some bs i rest h ih => rw [pending_of_some h, ih]

/-- **Items do not depend on the cut.** Looking at `a` first and at what it left over together
with `b` afterwards finds the items of `a ++ b`. -/
theorem items_append (a b : List β) :
    F.items (a ++ b) = F.items a ++ F.items (F.pending a ++ b) := by
  induction a using F.stream_induction with
  | none a h => rw [items_of_none h, pending_of_none h, List.nil_append]
  | some a i rest h ih =>
    rw [items_of_some (F.stable h b), items_of_some h, pending_of_some h, ih, List.cons_append]

theorem pending_append (a b : List β) : F.pending (a ++ b) = F.pending (F.pending a ++ b) := by
  induction a using F.stream_induction with
  | none a h => rw [pending_of_none h]
  | some a i rest h ih => rw [pending_of_some (F.stable h b), pending_of_some h, ih]

/-- A stream of encoded items is split into those items. -/
theorem split_encoded {enc : ι → List β} {is : List ι}
    (h : ∀ i ∈ is, ∀ more, F.next (enc i ++ more) = some (i, more)) :
    F.items (is.flatMap enc) = is ∧ F.pending (is.flatMap enc) = [] := by
  induction is with
  | nil => exact ⟨items_of_none F.next_nil, pending_of_none F.next_nil⟩
  | cons i is ih =>
    obtain ⟨ih₁, ih₂⟩ := ih fun j hj => h j (List.mem_cons_of_mem _ hj)
    have hi := h i List.mem_cons_self (is.flatMap enc)
    rw [List.flatMap_cons]
    exact ⟨by rw [items_of_some hi, ih₁], by rw [pending_of_some hi, ih₂]⟩

/-- A part of it is split into the first ones of them, and what it has of the next. -/
theorem split_take {enc : ι → List β} {is : List ι}
    (h : ∀ i ∈ is, ∀ more, F.next (enc i ++ more) = some (i, more)) {bs more : List β}
    (heq : bs ++ more = is.flatMap enc) :
    ∃ done rest, is = done ++ rest ∧ F.items bs = done ∧ F.pending bs ++ more = rest.flatMap enc := by
  induction is generalizing bs with
  | nil =>
    obtain ⟨rfl, rfl⟩ := List.append_eq_nil_iff.mp heq
    exact ⟨[], [], rfl, items_of_none F.next_nil, by rw [pending_of_none F.next_nil]; rfl⟩
  | cons i is ih =>
    cases hnext : F.next bs with
    | none =>
      exact ⟨[], i :: is, rfl, items_of_none hnext, by rw [pending_of_none hnext, heq]⟩
    | some p =>
      obtain ⟨j, left⟩ := p
      have hwhole := F.stable hnext more
      rw [heq, List.flatMap_cons, h i List.mem_cons_self (is.flatMap enc), Option.some.injEq,
        Prod.mk.injEq] at hwhole
      obtain ⟨rfl, hleft⟩ := hwhole
      obtain ⟨done, rest, rfl, hitems, hpending⟩ :=
        ih (fun j hj => h j (List.mem_cons_of_mem _ hj)) hleft.symm
      exact ⟨i :: done, rest, rfl, by rw [items_of_some hnext, hitems],
        by rw [pending_of_some hnext, hpending]⟩

end Framing

end Oxool
