import Oxool.Lib.Ends

/-!
# Objects that answer alike

An object answers calls. A call leaves it in another state, also where it throws. Two states are `Alike`
if no run of calls tells them apart: each call returns the same, or throws the same, from either.

`alike_of` is the rule to show it: a relation that every call respects. `Respects` has a rule for each way to
build a program, and one for the programs that run on a part of the state (`respects_onPart`), so that an
object that is made of others is followed down to the calls on these. In the other direction `outcomes_onPart`
finds the calls of a part among those of the whole.
-/

set_option autoImplicit false

namespace Oxool

variable {ε σ τ α β ι ο : Type}

/-- What is seen of a program that has run. -/
def outcome (m : EStateM ε σ α) (s : σ) : Except ε α :=
  match m s with
  | .ok a _ => .ok a
  | .error e _ => .error e

/-- What comes after a program that returns. -/
theorem bind_of_ok {m : EStateM ε σ α} {f : α → EStateM ε σ β} {a : α} {s s' : σ} (h : m s = .ok a s') :
    (m >>= f) s = f a s' := by
  show EStateM.bind m f s = _
  rw [EStateM.bind, h]

/-- Nothing comes after a program that throws. -/
theorem bind_of_error {m : EStateM ε σ α} {f : α → EStateM ε σ β} {e : ε} {s s' : σ} (h : m s = .error e s') :
    (m >>= f) s = .error e s' := by
  show EStateM.bind m f s = _
  rw [EStateM.bind, h]

/-- The outcomes of calls, one after the other. -/
def outcomes (call : ι → EStateM ε σ ο) : σ → List ι → List (Except ε ο)
  | _, [] => []
  | s, i :: calls => outcome (call i) s :: outcomes call (stateAfter (call i) s) calls

/-- No calls tell the two states apart. -/
def Alike (call : ι → EStateM ε σ ο) (s s' : σ) : Prop :=
  ∀ calls, outcomes call s calls = outcomes call s' calls

namespace Alike

variable {call : ι → EStateM ε σ ο} {s s' : σ}

theorem refl (call : ι → EStateM ε σ ο) (s : σ) : Alike call s s := fun _ => rfl

theorem outcome_eq (h : Alike call s s') (i : ι) : outcome (call i) s = outcome (call i) s' :=
  (List.cons.inj (h [i])).1

theorem stateAfter (h : Alike call s s') (i : ι) :
    Alike call (stateAfter (call i) s) (stateAfter (call i) s') :=
  fun calls => (List.cons.inj (h (i :: calls))).2

end Alike

/-- From related states the program has the same outcome, and it leaves related states. -/
def Respects (R : σ → σ → Prop) (m : EStateM ε σ α) : Prop :=
  ∀ s s', R s s' → outcome m s = outcome m s' ∧ R (stateAfter m s) (stateAfter m s')

/-- **What every call respects are states that are alike.** -/
theorem alike_of {call : ι → EStateM ε σ ο} {R : σ → σ → Prop} (hcalls : ∀ i, Respects R (call i)) {s s' : σ}
    (h : R s s') : Alike call s s' := by
  intro calls
  induction calls generalizing s s' with
  | nil => rfl
  | cons i calls ih =>
    obtain ⟨houtcome, hafter⟩ := hcalls i s s' h
    rw [outcomes, outcomes, houtcome, ih hafter]

theorem respects_alike (call : ι → EStateM ε σ ο) (i : ι) : Respects (Alike call) (call i) :=
  fun _ _ h => ⟨h.outcome_eq i, h.stateAfter i⟩

/-! ## Programs -/

section
variable {R : σ → σ → Prop} {m : EStateM ε σ α} {f : α → EStateM ε σ β}

theorem respects_pure (a : α) : Respects R (pure a : EStateM ε σ α) := fun _ _ h => ⟨rfl, h⟩

theorem respects_throw (e : ε) : Respects R (throw e : EStateM ε σ α) := fun _ _ h => ⟨rfl, h⟩

theorem respects_bind (hm : Respects R m) (hf : ∀ a, Respects R (f a)) : Respects R (m >>= f) := by
  intro s s' h
  obtain ⟨houtcome, hafter⟩ := hm s s' h
  have hrun : ∀ s, (m >>= f) s = match m s with
      | .ok a s' => f a s'
      | .error e s' => .error e s' := fun _ => rfl
  rw [outcome, outcome] at houtcome
  rw [stateAfter, stateAfter] at hafter
  rw [outcome, outcome, stateAfter, stateAfter, hrun, hrun]
  cases hs : m s with
  | ok a t =>
    cases hs' : m s' with
    | ok a' t' =>
      rw [hs, hs'] at houtcome hafter
      cases houtcome
      exact hf a t t' hafter
    | error e t' =>
      rw [hs, hs'] at houtcome
      cases houtcome
  | error e t =>
    cases hs' : m s' with
    | ok a' t' =>
      rw [hs, hs'] at houtcome
      cases houtcome
    | error e' t' =>
      rw [hs, hs'] at houtcome hafter
      exact ⟨congrArg Except.error (Except.error.inj houtcome), hafter⟩

theorem respects_ite {c : Prop} [Decidable c] {n : EStateM ε σ α} (hm : Respects R m) (hn : Respects R n) :
    Respects R (if c then m else n) := by
  split
  · exact hm
  · exact hn

theorem respects_modify {g : σ → σ} (h : ∀ s s', R s s' → R (g s) (g s')) :
    Respects R (modify g : EStateM ε σ PUnit) := fun s s' hR => ⟨rfl, h s s' hR⟩

theorem outcome_map (g : α → β) (m : EStateM ε σ α) (s : σ) : outcome (g <$> m) s = (outcome m s).map g := by
  have hrun : (g <$> m) s = match m s with
      | .ok a s' => .ok (g a) s'
      | .error e s' => .error e s' := rfl
  rw [outcome, outcome, hrun]
  cases m s with
  | ok a s' => rfl
  | error e s' => rfl

theorem stateAfter_map (g : α → β) (m : EStateM ε σ α) (s : σ) : stateAfter (g <$> m) s = stateAfter m s := by
  have hrun : (g <$> m) s = match m s with
      | .ok a s' => .ok (g a) s'
      | .error e s' => .error e s' := rfl
  rw [stateAfter, stateAfter, hrun]
  cases m s with
  | ok a s' => rfl
  | error e s' => rfl

theorem respects_map (g : α → β) (hm : Respects R m) : Respects R (g <$> m) := by
  intro s s' h
  rw [outcome_map, outcome_map, stateAfter_map, stateAfter_map, (hm s s' h).1]
  exact ⟨rfl, (hm s s' h).2⟩

/-- What a program returns can be told from what is made of it. -/
theorem respects_of_map {g : α → β} (hg : Function.Injective g) (h : Respects R (g <$> m)) : Respects R m := by
  intro s s' hR
  obtain ⟨houtcome, hafter⟩ := h s s' hR
  rw [outcome_map, outcome_map] at houtcome
  rw [stateAfter_map, stateAfter_map] at hafter
  refine ⟨?_, hafter⟩
  cases hs : outcome m s with
  | ok a =>
    cases hs' : outcome m s' with
    | ok a' =>
      rw [hs, hs'] at houtcome
      exact congrArg Except.ok (hg (Except.ok.inj houtcome))
    | error e =>
      rw [hs, hs'] at houtcome
      cases houtcome
  | error e =>
    cases hs' : outcome m s' with
    | ok a' =>
      rw [hs, hs'] at houtcome
      cases houtcome
    | error e' =>
      rw [hs, hs'] at houtcome
      exact congrArg Except.error (Except.error.inj houtcome)

end

/-! ## Parts -/

/-- A program that runs on a part of the state. -/
def onPart (get : τ → σ) (set : τ → σ → τ) (m : EStateM ε σ α) : EStateM ε τ α := fun t =>
  match m (get t) with
  | .ok a s => .ok a (set t s)
  | .error e s => .error e (set t s)

theorem onPart_of_ok {get : τ → σ} {set : τ → σ → τ} {m : EStateM ε σ α} {t : τ} {a : α} {s : σ}
    (h : m (get t) = .ok a s) : onPart get set m t = .ok a (set t s) := by
  rw [onPart, h]

theorem onPart_of_error {get : τ → σ} {set : τ → σ → τ} {m : EStateM ε σ α} {t : τ} {e : ε} {s : σ}
    (h : m (get t) = .error e s) : onPart get set m t = .error e (set t s) := by
  rw [onPart, h]

theorem outcome_onPart (get : τ → σ) (set : τ → σ → τ) (m : EStateM ε σ α) (t : τ) :
    outcome (onPart get set m) t = outcome m (get t) := by
  rw [outcome, outcome, onPart]
  cases m (get t) with
  | ok a s => rfl
  | error e s => rfl

theorem stateAfter_onPart (get : τ → σ) (set : τ → σ → τ) (m : EStateM ε σ α) (t : τ) :
    stateAfter (onPart get set m) t = set t (stateAfter m (get t)) := by
  rw [stateAfter, stateAfter, onPart]
  cases m (get t) with
  | ok a s => rfl
  | error e s => rfl

/-- Calls of a part are calls of the whole. -/
theorem outcomes_onPart {κ : Type} {call : ι → EStateM ε σ ο} {call' : κ → EStateM ε τ ο} {get : τ → σ}
    {set : τ → σ → τ} {f : ι → κ} (hcall : ∀ i, call' (f i) = onPart get set (call i))
    (hget : ∀ t s, get (set t s) = s) (t : τ) (calls : List ι) :
    outcomes call' t (calls.map f) = outcomes call (get t) calls := by
  induction calls generalizing t with
  | nil => rfl
  | cons i calls ih =>
    rw [List.map_cons, outcomes, outcomes, ih, hcall, outcome_onPart, stateAfter_onPart, hget]

theorem respects_onPart {R : σ → σ → Prop} {S : τ → τ → Prop} {get : τ → σ} {set : τ → σ → τ}
    {m : EStateM ε σ α} (hm : Respects R m) (hget : ∀ t t', S t t' → R (get t) (get t'))
    (hset : ∀ t t' s s', S t t' → R s s' → S (set t s) (set t' s')) : Respects S (onPart get set m) := by
  intro t t' h
  obtain ⟨houtcome, hafter⟩ := hm _ _ (hget t t' h)
  rw [outcome_onPart, outcome_onPart, stateAfter_onPart, stateAfter_onPart]
  exact ⟨houtcome, hset t t' _ _ h hafter⟩

end Oxool
