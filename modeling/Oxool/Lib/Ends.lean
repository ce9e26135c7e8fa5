import Mathlib.Logic.Basic

/-!
# Programs that end

A program over a state returns a value or throws, and leaves a state either way: what it did before
it threw is not undone. `Ends m s E Q` says that from `s` the program `m` either returns, and `Q` holds of
what it returns and of the state it leaves, or throws, and `E` holds of the state it leaves. There is a rule
for each way to build a program, so that a program is followed by rewriting with the rules, up to the calls
whose own lemmas say what they do. Only `throw` asks for `E`: what throws nothing ends for every `E`, and so
for the one that is never true. `Preserves I m` is the case that an invariant holds on either way.
-/

set_option autoImplicit false

namespace Oxool

variable {ε σ α β : Type}

/-- From `s` the program returns and `Q` holds after it, or it throws and `E` holds after it. -/
def Ends (m : EStateM ε σ α) (s : σ) (E : σ → Prop) (Q : α → σ → Prop) : Prop :=
  (∃ a s', m s = .ok a s' ∧ Q a s') ∨ ∃ e s', m s = .error e s' ∧ E s'

/-- The state a program leaves, where it throws as well. -/
def stateAfter (m : EStateM ε σ α) (s : σ) : σ :=
  match m s with
  | .ok _ s' => s'
  | .error _ s' => s'

variable {m : EStateM ε σ α} {f : α → EStateM ε σ β} {s : σ} {E E' : σ → Prop} {Q Q' : α → σ → Prop}

theorem ends_of_ok {a : α} {s' : σ} (h : m s = .ok a s') : Ends m s E Q ↔ Q a s' := by
  simp [Ends, h, and_assoc]

theorem ends_of_error {e : ε} {s' : σ} (h : m s = .error e s') : Ends m s E Q ↔ E s' := by
  simp [Ends, h, and_assoc]

/-- The rule of consequence. -/
theorem Ends.weaken (h : Ends m s E Q) (hE : ∀ s', E s' → E' s') (hQ : ∀ a s', Q a s' → Q' a s') :
    Ends m s E' Q' := by
  rcases h with ⟨a, s', hrun, hq⟩ | ⟨e, s', hrun, he⟩
  · exact .inl ⟨a, s', hrun, hQ a s' hq⟩
  · exact .inr ⟨e, s', hrun, hE s' he⟩

theorem Ends.mono (h : Ends m s E Q) (hQ : ∀ a s', Q a s' → Q' a s') : Ends m s E Q' :=
  h.weaken (fun _ => id) hQ

/-- What a program runs into. -/
theorem Ends.congr {m' : EStateM ε σ α} {s' : σ} (h : m s = m' s') (hends : Ends m' s' E Q) :
    Ends m s E Q := by
  rw [Ends] at hends ⊢
  rw [h]
  exact hends

/-- Of the state after a program one of the two holds. -/
theorem Ends.stateAfter (h : Ends m s E Q) : E (stateAfter m s) ∨ ∃ a, Q a (stateAfter m s) := by
  rw [Oxool.stateAfter]
  rcases h with ⟨a, s', hrun, hq⟩ | ⟨e, s', hrun, he⟩
  · rw [hrun]
    exact .inr ⟨a, hq⟩
  · rw [hrun]
    exact .inl he

/-- The state after a program that throws nothing. -/
theorem Ends.exists_stateAfter (h : Ends m s (fun _ => False) Q) : ∃ a, Q a (Oxool.stateAfter m s) :=
  h.stateAfter.resolve_left id

@[simp] theorem ends_pure (a : α) : Ends (pure a : EStateM ε σ α) s E Q ↔ Q a s :=
  ends_of_ok rfl

@[simp] theorem ends_throw (e : ε) : Ends (throw e : EStateM ε σ α) s E Q ↔ E s :=
  ends_of_error rfl

/-- The sequence rule. -/
@[simp] theorem ends_bind {Q : β → σ → Prop} :
    Ends (m >>= f) s E Q ↔ Ends m s E fun a s' => Ends (f a) s' E Q := by
  have hbind : (m >>= f) s = match m s with
      | .ok a s' => f a s'
      | .error e s' => .error e s' := rfl
  cases hm : m s with
  | ok a s' =>
    rw [hm] at hbind
    rw [ends_of_ok hm, Ends, Ends, hbind]
  | error e s' =>
    rw [hm] at hbind
    rw [ends_of_error hm, ends_of_error hbind]

theorem Ends.bind {Q : β → σ → Prop} {P : α → σ → Prop} (h : Ends m s E P)
    (hf : ∀ a s', P a s' → Ends (f a) s' E Q) : Ends (m >>= f) s E Q :=
  ends_bind.mpr (h.mono hf)

@[simp] theorem ends_get {Q : σ → σ → Prop} : Ends (get : EStateM ε σ σ) s E Q ↔ Q s s :=
  ends_of_ok rfl

@[simp] theorem ends_modify (g : σ → σ) {Q : PUnit → σ → Prop} :
    Ends (modify g : EStateM ε σ PUnit) s E Q ↔ Q () (g s) :=
  ends_of_ok rfl

/-- The rule for a condition. -/
theorem Ends.ite {c : Prop} [Decidable c] {n : EStateM ε σ α} (hm : c → Ends m s E Q)
    (hn : ¬ c → Ends n s E Q) : Ends (if c then m else n) s E Q := by
  split
  · exact hm ‹_›
  · exact hn ‹_›

/-! ## Invariants -/

/-- An invariant holds on, whether the program returns or throws. -/
def Preserves (I : σ → Prop) (m : EStateM ε σ α) : Prop :=
  ∀ s, I s → Ends m s I fun _ => I

namespace Preserves

variable {I : σ → Prop}

theorem pure (a : α) : Preserves I (Pure.pure a : EStateM ε σ α) :=
  fun _ hs => (ends_pure a).mpr hs

theorem throw (e : ε) : Preserves I (MonadExcept.throw e : EStateM ε σ α) :=
  fun _ hs => (ends_throw e).mpr hs

theorem get : Preserves I (MonadState.get : EStateM ε σ σ) :=
  fun _ hs => ends_get.mpr hs

theorem modify {g : σ → σ} (hg : ∀ s, I s → I (g s)) :
    Preserves I (modifyThe σ g : EStateM ε σ PUnit) :=
  fun s hs => (ends_modify g).mpr (hg s hs)

theorem bind (hm : Preserves I m) (hf : ∀ a, Preserves I (f a)) : Preserves I (m >>= f) :=
  fun s hs => (hm s hs).bind fun a s' hs' => hf a s' hs'

theorem ite {c : Prop} [Decidable c] {n : EStateM ε σ α} (hm : Preserves I m) (hn : Preserves I n) :
    Preserves I (if c then m else n) :=
  fun s hs => .ite (fun _ => hm s hs) fun _ => hn s hs

/-- What holds of the state after the program. -/
theorem stateAfter (hm : Preserves I m) (hs : I s) : I (Oxool.stateAfter m s) :=
  (hm s hs).stateAfter.elim id fun ⟨_, h⟩ => h

end Preserves

end Oxool
