import Mathlib.Logic.Basic

/-!
# Runs of a machine

A machine takes one action after another. `Meets ok` says of a run that every action in it was
taken in a state that allows it, `Always P` that `P` holds in every state the run goes through.
Two rules connect them: `always_of_meets`, for a condition under which an invariant is kept, and
`always_iff_meets`, for a condition that is exactly what keeps it.

A `Trace` is a run under construction. Code that only ever extends a trace cannot reach a state
that is not the end of a run, so what is proved of all runs holds of whatever the code does.
-/

set_option autoImplicit false

namespace Oxool.Run

variable {σ α : Type} (act : σ → α → σ)

/-- Every action is taken in a state that allows it. -/
def Meets (ok : σ → α → Prop) : σ → List α → Prop
  | _, [] => True
  | s, a :: as => ok s a ∧ Meets ok (act s a) as

/-- `P` holds in every state of the run, the first and the last included. -/
def Always (P : σ → Prop) : σ → List α → Prop
  | s, [] => P s
  | s, a :: as => P s ∧ Always P (act s a) as

instance decidableMeets (ok : σ → α → Prop) [∀ s a, Decidable (ok s a)] :
    ∀ (s : σ) (as : List α), Decidable (Meets act ok s as)
  | _, [] => .isTrue trivial
  | s, a :: as =>
    have := decidableMeets ok (act s a) as
    inferInstanceAs (Decidable (ok s a ∧ Meets act ok (act s a) as))

instance decidableAlways (P : σ → Prop) [DecidablePred P] :
    ∀ (s : σ) (as : List α), Decidable (Always act P s as)
  | s, [] => inferInstanceAs (Decidable (P s))
  | s, a :: as =>
    have := decidableAlways P (act s a) as
    inferInstanceAs (Decidable (P s ∧ Always act P (act s a) as))

variable {act} {ok : σ → α → Prop} {P : σ → Prop}

theorem Always.head {s : σ} {as : List α} (h : Always act P s as) : P s := by
  cases as with
  | nil => exact h
  | cons a as => exact h.1

theorem Always.last {s : σ} {as : List α} (h : Always act P s as) : P (as.foldl act s) := by
  induction as generalizing s with
  | nil => exact h
  | cons a as ih => exact ih h.2

/-- **The invariant rule.** What holds at the start, is kept by every action its state allows, and
implies `P`, makes `P` hold throughout every run that keeps to what is allowed. -/
theorem always_of_meets {Inv : σ → Prop} (hP : ∀ s, Inv s → P s)
    (hstep : ∀ s a, Inv s → ok s a → Inv (act s a)) {s : σ} {as : List α}
    (h0 : Inv s) (h : Meets act ok s as) : Always act P s as := by
  induction as generalizing s with
  | nil => exact hP s h0
  | cons a as ih => exact ⟨hP s h0, ih (hstep s a h0 h.1) h.2⟩

/-- The invariant rule, where every action is allowed. -/
theorem always_of_inv {Inv : σ → Prop} (hP : ∀ s, Inv s → P s)
    (hstep : ∀ s a, Inv s → Inv (act s a)) {s : σ} {as : List α} (h0 : Inv s) :
    Always act P s as := by
  induction as generalizing s with
  | nil => exact hP s h0
  | cons a as ih => exact ⟨hP s h0, ih (hstep s a h0)⟩

/-- What an invariant makes of every allowed action holds along every run that keeps to what is
allowed. -/
theorem Meets.imp {ok' : σ → α → Prop} {Inv : σ → Prop}
    (hstep : ∀ s a, Inv s → ok s a → Inv (act s a)) (himp : ∀ s a, Inv s → ok s a → ok' s a)
    {s : σ} {as : List α} (h0 : Inv s) (h : Meets act ok s as) : Meets act ok' s as := by
  induction as generalizing s with
  | nil => trivial
  | cons a as ih => exact ⟨himp s a h0 h.1, ih (hstep s a h0 h.1) h.2⟩

/-- What every state allows, or none, is a matter of the actions alone. -/
theorem meets_forall {ok : α → Prop} {s : σ} {as : List α} :
    Meets act (fun _ a => ok a) s as ↔ ∀ a ∈ as, ok a := by
  induction as generalizing s with
  | nil => exact ⟨fun _ => List.forall_mem_nil _, fun _ => trivial⟩
  | cons a as ih => rw [Meets, ih, List.forall_mem_cons]

/-- **The exact rule.** If `P` survives an action exactly when its state allows it, then `P` holds
throughout a run exactly when the run keeps to what is allowed. `Inv` holds of every run. -/
theorem always_iff_meets {Inv : σ → Prop} (hInv : ∀ s a, Inv s → Inv (act s a))
    (hstep : ∀ s a, Inv s → P s → (P (act s a) ↔ ok s a)) {s : σ} {as : List α}
    (h0 : Inv s) (hs : P s) : Always act P s as ↔ Meets act ok s as := by
  induction as generalizing s with
  | nil => exact ⟨fun _ => trivial, fun _ => hs⟩
  | cons a as ih =>
    constructor
    · rintro ⟨-, h⟩
      exact ⟨(hstep s a h0 hs).1 h.head, (ih (hInv s a h0) h.head).1 h⟩
    · rintro ⟨hok, h⟩
      have hs' := (hstep s a h0 hs).2 hok
      exact ⟨hs, (ih (hInv s a h0) hs').2 h⟩

end Oxool.Run

namespace Oxool

/-- The actions taken so far from `init`, and where they led. -/
structure Trace {σ α : Type} (step : σ → α → σ) (init : σ) where
  actions : List α
  state : σ
  reached : actions.foldl step init = state

namespace Trace

variable {σ α : Type} {step : σ → α → σ} {init : σ}

/-- Nothing done yet. -/
def start : Trace step init := ⟨[], init, rfl⟩

/-- One more action. -/
def act (t : Trace step init) (a : α) : Trace step init :=
  ⟨t.actions ++ [a], step t.state a, by simp [t.reached]⟩

@[simp] theorem act_state (t : Trace step init) (a : α) : (t.act a).state = step t.state a := rfl

/-- Every action of the trace was taken in a state that allows it. -/
def Meets (t : Trace step init) (ok : σ → α → Prop) : Prop := Run.Meets step ok init t.actions

/-- `P` holds in every state the trace went through. -/
def Always (t : Trace step init) (P : σ → Prop) : Prop := Run.Always step P init t.actions

instance (t : Trace step init) (ok : σ → α → Prop) [∀ s a, Decidable (ok s a)] :
    Decidable (t.Meets ok) := inferInstanceAs (Decidable (Run.Meets ..))

instance (t : Trace step init) (P : σ → Prop) [DecidablePred P] :
    Decidable (t.Always P) := inferInstanceAs (Decidable (Run.Always ..))

theorem Always.state {t : Trace step init} {P : σ → Prop} (h : t.Always P) : P t.state :=
  t.reached ▸ Run.Always.last h

end Trace

end Oxool
