import Oxool.Lib.Run

/-!
# Runs without an end

A run without an end takes an action at each time. It is fair for a kind of actions if these are not
put off for ever: whenever one can be taken, one is taken, then or later. `leadsTo_of_fair` makes of
this that a state of some sort is followed by one of another sort. What leads to what is put together
with `LeadsTo.trans` and `LeadsTo.or`.
-/

set_option autoImplicit false

namespace Oxool.Run

variable {σ α : Type} (act : σ → α → σ) (s : σ) (as : Nat → α)

/-- The state at a time. -/
def stateAt : Nat → σ
  | 0 => s
  | n + 1 => act (stateAt n) (as n)

/-- Whenever an action of the kind can be taken, one is taken at some time from then on. -/
def FairFor (enabled : σ → Prop) (kind : α → Prop) : Prop :=
  ∀ n, enabled (stateAt act s as n) → ∃ m, n ≤ m ∧ kind (as m) ∧ enabled (stateAt act s as m)

/-- Whenever `P` holds, `Q` holds at some time from then on. -/
def LeadsTo (P Q : σ → Prop) : Prop :=
  ∀ n, P (stateAt act s as n) → ∃ m, n ≤ m ∧ Q (stateAt act s as m)

variable {act s as} {I P Q R : σ → Prop}

variable (I) in
theorem stateAt_inv (hstep : ∀ s a, I s → I (act s a)) (h0 : I s) (n : Nat) :
    I (stateAt act s as n) := by
  induction n with
  | zero => exact h0
  | succ n ih => exact hstep _ _ ih

/-- What no action makes less is not less at a later time. -/
theorem stateAt_le {f : σ → Nat} (hstep : ∀ s a, f s ≤ f (act s a)) {n m : Nat} (h : n ≤ m) :
    f (stateAt act s as n) ≤ f (stateAt act s as m) := by
  induction h with
  | refl => exact Nat.le_refl _
  | step _ ih => exact Nat.le_trans ih (hstep _ _)

theorem LeadsTo.trans (hPQ : LeadsTo act s as P Q) (hQR : LeadsTo act s as Q R) :
    LeadsTo act s as P R := by
  intro n hP
  obtain ⟨m, hm, hQ⟩ := hPQ n hP
  obtain ⟨l, hl, hR⟩ := hQR m hQ
  exact ⟨l, Nat.le_trans hm hl, hR⟩

theorem LeadsTo.or (hPR : LeadsTo act s as P R) (hQR : LeadsTo act s as Q R) :
    LeadsTo act s as (fun s => P s ∨ Q s) R := by
  intro n hPQ
  rcases hPQ with hP | hQ
  · exact hPR n hP
  · exact hQR n hQ

/-- What holds whenever the invariant does may be used on the left. -/
theorem LeadsTo.of_inv (hInv : ∀ n, I (stateAt act s as n)) (himp : ∀ s, I s → P s → Q s)
    (hQR : LeadsTo act s as Q R) : LeadsTo act s as P R :=
  fun n hP => hQR n (himp _ (hInv n) hP)

/-- **The fairness rule.** Where `P` stays until `Q` comes, and an action of a kind that is not put off
leads from `P` to `Q`, `P` leads to `Q`. -/
theorem leadsTo_of_fair {enabled : σ → Prop} {kind : α → Prop} (hInv : ∀ n, I (stateAt act s as n))
    (hfair : FairFor act s as enabled kind)
    (hstay : ∀ s a, I s → P s → P (act s a) ∨ Q (act s a))
    (hgo : ∀ s a, I s → P s → enabled s → kind a → Q (act s a)) :
    LeadsTo act s as (fun s => P s ∧ enabled s) Q := by
  intro n hn
  obtain ⟨hP, henabled⟩ := hn
  obtain ⟨m, hm, hkind, henabled⟩ := hfair n henabled
  -- until that time, `P` stays or `Q` has come
  have huntil : P (stateAt act s as m) ∨ ∃ l, n ≤ l ∧ Q (stateAt act s as l) := by
    clear hkind henabled
    induction hm with
    | refl => exact .inl hP
    | @step m hm ih =>
      rcases ih with hPm | hQ
      · rcases hstay _ (as m) (hInv m) hPm with hP' | hQ'
        · exact .inl hP'
        · exact .inr ⟨m + 1, Nat.le_succ_of_le hm, hQ'⟩
      · exact .inr hQ
  rcases huntil with hPm | hQ
  · exact ⟨m + 1, Nat.le_succ_of_le hm, hgo _ _ (hInv m) hPm henabled hkind⟩
  · exact hQ

end Oxool.Run
