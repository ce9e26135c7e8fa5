import Mathlib.Data.List.Forall2

/-!
# Loops with fuel

A loop that need not come to an end is a function of its fuel, and `none` where the fuel does not
reach. `Returns` says that it does come to an end, and with what.
-/

set_option autoImplicit false

namespace Oxool.Fuel

variable {α β : Type} {f : Nat → Option α} {a : α}

/-- From some amount of fuel on the result is `a`. -/
def Returns (f : Nat → Option α) (a : α) : Prop := ∃ n, ∀ fuel, n < fuel → f fuel = some a

theorem Returns.const (a : α) : Returns (fun _ => some a) a := ⟨0, fun _ _ => rfl⟩

theorem Returns.unique {b : α} (h : Returns f a) (h' : Returns f b) : a = b := by
  obtain ⟨n, hn⟩ := h
  obtain ⟨n', hn'⟩ := h'
  have ha := hn (max n n' + 1) (by omega)
  rw [hn' (max n n' + 1) (by omega)] at ha
  exact (Option.some.inj ha).symm

theorem Returns.map (h : Returns f a) (g : α → β) : Returns (fun fuel => (f fuel).map g) (g a) := by
  obtain ⟨n, hn⟩ := h
  refine ⟨n, fun fuel hfuel => ?_⟩
  dsimp only
  rw [hn fuel hfuel]
  rfl

/-- Loops one after the other come to an end if each does. -/
theorem Returns.mapM {f : Nat → β → Option α} {P : β → α → Prop} {l : List β}
    (h : ∀ b ∈ l, ∃ a, Returns (fun fuel => f fuel b) a ∧ P b a) :
    ∃ as, Returns (fun fuel => l.mapM (f fuel)) as ∧ List.Forall₂ P l as := by
  induction l with
  | nil => exact ⟨[], ⟨0, fun _ _ => rfl⟩, .nil⟩
  | cons b l ih =>
    obtain ⟨a, ⟨n, hn⟩, ha⟩ := h b List.mem_cons_self
    obtain ⟨as, ⟨n', hn'⟩, has⟩ := ih fun b' hb' => h b' (List.mem_cons_of_mem _ hb')
    refine ⟨a :: as, ⟨max n n', fun fuel hfuel => ?_⟩, .cons ha has⟩
    have hhead : f fuel b = some a := hn fuel (by omega)
    have htail : l.mapM (f fuel) = some as := hn' fuel (by omega)
    dsimp only
    rw [List.mapM_cons, hhead, htail]
    rfl

/-! ## Pairs of lists -/

theorem exists_left_of_mem {P : β → α → Prop} {l : List β} {as : List α} (h : List.Forall₂ P l as)
    {a : α} (ha : a ∈ as) : ∃ b ∈ l, P b a := by
  induction h with
  | nil => exact absurd ha List.not_mem_nil
  | cons hP _ ih =>
    rcases List.mem_cons.mp ha with rfl | ha
    · exact ⟨_, List.mem_cons_self, hP⟩
    · obtain ⟨b, hb, hba⟩ := ih ha
      exact ⟨b, List.mem_cons_of_mem _ hb, hba⟩

theorem exists_right_of_mem {P : β → α → Prop} {l : List β} {as : List α} (h : List.Forall₂ P l as)
    {b : β} (hb : b ∈ l) : ∃ a ∈ as, P b a :=
  exists_left_of_mem h.flip hb

end Oxool.Fuel
