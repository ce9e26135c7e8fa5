import Mathlib.Algebra.Order.Field.Basic
import Mathlib.Algebra.Ring.Parity
import Mathlib.Data.List.Perm.Basic
import Mathlib.Order.Monotone.Defs
import Mathlib.Tactic.Linarith

/-!
# Polygons with right angles

A polygon is the list of its points, from one of them around to the same again. It is orthogonal if its edges
are vertical and horizontal in turns. A point is inside by the even-odd rule if a ray from it, here the one
that runs to smaller `x`, crosses an odd number of edges.

For an orthogonal polygon the parity of the crossings is that of the number of corners on the lower left of
the point (`crossings_mod_two`), and for a point off all edges it does not matter then if corners at the same
`x`, or at the same `y`, are counted (`lowerLeft_mod_two`). A rectangle has an odd number of corners there
exactly if the point is in it, with two of its sides.
-/

set_option autoImplicit false

namespace Oxool

/-- Each element is related to the next, by `R` and by `S` in turns: by `S` first if `second`. The last one is
one that `R` would be for. -/
def Alternating {α : Type} (R S : α → α → Prop) : Bool → List α → Prop
  | _, [] => False
  | second, [_] => second = false
  | second, a :: b :: rest => (if second then S a b else R a b) ∧ Alternating R S (!second) (b :: rest)

theorem Alternating.map {α β : Type} {R S : α → α → Prop} {R' S' : β → β → Prop} {f : α → β}
    (hR : ∀ a b, R a b → R' (f a) (f b)) (hS : ∀ a b, S a b → S' (f a) (f b)) :
    ∀ {second : Bool} {l : List α}, Alternating R S second l → Alternating R' S' second (l.map f)
  | _, [], h => h.elim
  | _, [_], h => h
  | second, a :: b :: rest, h => by
    refine ⟨?_, Alternating.map hR hS h.2⟩
    have hab := h.1
    cases second with
    | true => exact hS a b hab
    | false => exact hR a b hab

namespace Polygon

/-- Each point with the next. -/
def edges {α : Type} (polygon : List α) : List (α × α) := polygon.zip polygon.tail

/-- The last point is the first. -/
def Closed {α : Type} (polygon : List α) : Prop := polygon.head? = polygon.getLast?

theorem countP_dropLast {α : Type} {polygon : List α} (hclosed : Closed polygon) (P : α → Bool) :
    polygon.dropLast.countP P = polygon.tail.countP P := by
  cases polygon with
  | nil => rfl
  | cons a rest =>
    have hlast : (a :: rest).getLast (List.cons_ne_nil a rest) = a := by
      rw [Closed, List.head?_cons, List.getLast?_eq_some_getLast (List.cons_ne_nil a rest), Option.some.injEq] at hclosed
      exact hclosed.symm
    have hsplit := List.dropLast_append_getLast (List.cons_ne_nil a rest)
    rw [hlast] at hsplit
    have hcount : ((a :: rest).dropLast ++ [a]).countP P = (a :: rest).countP P := by rw [hsplit]
    rw [List.countP_append, List.countP_cons, List.countP_cons, List.countP_nil] at hcount
    rw [List.tail_cons]
    omega

variable {K : Type} [LinearOrder K]

/-- Edges are vertical and horizontal in turns. -/
def Orthogonal (polygon : List (K × K)) : Prop :=
  Alternating (fun a b => a.1 = b.1) (fun a b => a.2 = b.2) false polygon

/-- On an edge that is vertical or horizontal. -/
def OnEdge (q a b : K × K) : Prop :=
  (min a.1 b.1 ≤ q.1 ∧ q.1 ≤ max a.1 b.1) ∧ min a.2 b.2 ≤ q.2 ∧ q.2 ≤ max a.2 b.2

def OffEdges (q : K × K) (polygon : List (K × K)) : Prop := ∀ e ∈ edges polygon, ¬ OnEdge q e.1 e.2

/-! ## Corners on the lower left -/

/-- Before a coordinate, or at it if those count. -/
def Before (orAt : Bool) (a q : K) : Prop := if orAt then a ≤ q else a < q

instance (orAt : Bool) (a q : K) : Decidable (Before orAt a q) := by
  unfold Before
  infer_instance

def LowerLeft (atX atY : Bool) (q a : K × K) : Prop := Before atX a.1 q.1 ∧ Before atY a.2 q.2

instance (atX atY : Bool) (q a : K × K) : Decidable (LowerLeft atX atY q a) := inferInstanceAs (Decidable (_ ∧ _))

section
variable {q : K × K}

/-- Off a vertical edge it does not matter whether corners at the same `x` count. -/
theorem lowerLeft_vertical {a b : K × K} (h : a.1 = b.1) (hoff : ¬ OnEdge q a b) (atX atX' atY : Bool) :
    ((if LowerLeft atX atY q a then 1 else 0) + if LowerLeft atX atY q b then 1 else 0) % 2 =
      ((if LowerLeft atX' atY q a then 1 else 0) + if LowerLeft atX' atY q b then 1 else 0) % 2 := by
  by_cases hx : a.1 = q.1
  · -- both ends are before the point then, or neither is
    have hy : Before atY a.2 q.2 ↔ Before atY b.2 q.2 := by
      simp only [OnEdge, ← h, min_self, max_self, hx, le_refl, true_and, min_le_iff, le_max_iff, not_and_or, not_or,
        not_le] at hoff
      cases atY with
      | true =>
        simp only [Before, if_true]
        rcases hoff with ⟨ha, hb⟩ | ⟨ha, hb⟩
        · exact iff_of_false (not_le_of_gt ha) (not_le_of_gt hb)
        · exact iff_of_true ha.le hb.le
      | false =>
        simp only [Before, Bool.false_eq_true, if_false]
        rcases hoff with ⟨ha, hb⟩ | ⟨ha, hb⟩
        · exact iff_of_false (not_lt_of_gt ha) (not_lt_of_gt hb)
        · exact iff_of_true ha hb
    simp only [LowerLeft, ← h, hy]
    split_ifs <;> rfl
  · have hsame : ∀ c : K × K, c.1 = a.1 → (LowerLeft atX atY q c ↔ LowerLeft atX' atY q c) := by
      intro c hc
      rw [LowerLeft, LowerLeft, hc]
      cases atX <;> cases atX' <;> simp [Before, le_iff_lt_or_eq, hx]
    rw [if_congr (hsame a rfl) rfl rfl, if_congr (hsame b h.symm) rfl rfl]

/-- Off a horizontal edge it does not matter whether corners at the same `y` count. -/
theorem lowerLeft_horizontal {a b : K × K} (h : a.2 = b.2) (hoff : ¬ OnEdge q a b) (atX atY atY' : Bool) :
    ((if LowerLeft atX atY q a then 1 else 0) + if LowerLeft atX atY q b then 1 else 0) % 2 =
      ((if LowerLeft atX atY' q a then 1 else 0) + if LowerLeft atX atY' q b then 1 else 0) % 2 := by
  have hswap : ∀ atY, ∀ c : K × K, LowerLeft atX atY q c ↔ LowerLeft atY atX q.swap c.swap :=
    fun atY c => and_comm
  simp only [hswap]
  exact lowerLeft_vertical (q := q.swap) (a := a.swap) (b := b.swap) h (fun hon => hoff ⟨hon.2, hon.1⟩) _ _ _

theorem offEdges_tail {a b : K × K} {rest : List (K × K)} (h : OffEdges q (a :: b :: rest)) :
    ¬ OnEdge q a b ∧ OffEdges q (b :: rest) :=
  ⟨h (a, b) List.mem_cons_self, fun e he => h e (List.mem_cons_of_mem _ he)⟩

/-- The ends of the vertical edges are all points but the last. -/
theorem dropLast_mod_two (atX atX' atY : Bool) : ∀ {polygon : List (K × K)}, Orthogonal polygon →
    OffEdges q polygon → polygon.dropLast.countP (LowerLeft atX atY q ·) % 2 =
      polygon.dropLast.countP (LowerLeft atX' atY q ·) % 2
  | [], h, _ => h.elim
  | [_], _, _ => rfl
  | [_, _], h, _ => absurd h.2 (Bool.false_ne_true ∘ Eq.symm)
  | a :: b :: c :: rest, ⟨hvertical, _, hrest⟩, hoff => by
    obtain ⟨hab, hoff⟩ := offEdges_tail hoff
    have ih := dropLast_mod_two atX atX' atY hrest (offEdges_tail hoff).2
    have hends := lowerLeft_vertical hvertical hab atX atX' atY
    show (a :: b :: (c :: rest).dropLast).countP _ % 2 = (a :: b :: (c :: rest).dropLast).countP _ % 2
    rw [List.countP_cons, List.countP_cons, List.countP_cons, List.countP_cons]
    simp only [decide_eq_true_eq]
    omega

/-- The ends of the horizontal edges are all points but the first. -/
theorem tail_mod_two (atX atY atY' : Bool) : ∀ {polygon : List (K × K)}, Orthogonal polygon →
    OffEdges q polygon → polygon.tail.countP (LowerLeft atX atY q ·) % 2 =
      polygon.tail.countP (LowerLeft atX atY' q ·) % 2
  | [], h, _ => h.elim
  | [_], _, _ => rfl
  | [_, _], h, _ => absurd h.2 (Bool.false_ne_true ∘ Eq.symm)
  | a :: b :: c :: rest, ⟨_, hhorizontal, hrest⟩, hoff => by
    obtain ⟨hbc, hoff⟩ := offEdges_tail (offEdges_tail hoff).2
    have ih := tail_mod_two atX atY atY' hrest hoff
    have hends := lowerLeft_horizontal hhorizontal hbc atX atY atY'
    show (b :: c :: rest).countP _ % 2 = (b :: c :: rest).countP _ % 2
    rw [List.countP_cons, List.countP_cons, List.countP_cons, List.countP_cons]
    simp only [decide_eq_true_eq]
    rw [List.tail_cons] at ih
    omega

end

/-! ## Crossings -/

section
variable [Field K]

/-- The ray from `q` to smaller `x` crosses the edge. -/
def Crosses (q a b : K × K) : Prop :=
  (a.2 < q.2 ↔ ¬ b.2 < q.2) ∧ a.1 + (q.2 - a.2) * (b.1 - a.1) / (b.2 - a.2) < q.1

instance (q a b : K × K) : Decidable (Crosses q a b) := inferInstanceAs (Decidable (_ ∧ _))

/-- How often the edges are crossed. -/
def crossings (q : K × K) (polygon : List (K × K)) : Nat := (edges polygon).countP fun e => Crosses q e.1 e.2

/-- A vertical edge is crossed if one of its ends is on the lower left. -/
theorem crosses_vertical {q a b : K × K} (h : a.1 = b.1) :
    (if Crosses q a b then 1 else 0) % 2 =
      ((if LowerLeft false false q a then 1 else 0) + if LowerLeft false false q b then 1 else 0) % 2 := by
  simp only [Crosses, LowerLeft, Before, Bool.false_eq_true, if_false, ← h, sub_self, mul_zero, zero_div, add_zero]
  by_cases hleft : a.1 < q.1
  · by_cases ha : a.2 < q.2
    · by_cases hb : b.2 < q.2
      · simp [hleft, ha, hb]
      · simp [hleft, ha, hb]
    · by_cases hb : b.2 < q.2
      · simp [hleft, ha, hb]
      · simp [hleft, ha, hb]
  · simp [hleft]

theorem not_crosses_horizontal {q a b : K × K} (h : a.2 = b.2) : ¬ Crosses q a b := by
  rintro ⟨hcross, -⟩
  rw [h] at hcross
  exact iff_not_self hcross

/-- **Crossings and corners**. -/
theorem crossings_mod_two (q : K × K) : ∀ {polygon : List (K × K)}, Orthogonal polygon →
    crossings q polygon % 2 = polygon.dropLast.countP (LowerLeft false false q ·) % 2
  | [], h => h.elim
  | [_], _ => rfl
  | [_, _], h => absurd h.2 (Bool.false_ne_true ∘ Eq.symm)
  | a :: b :: c :: rest, ⟨hvertical, hhorizontal, hrest⟩ => by
    have ih := crossings_mod_two q hrest
    have hab := crosses_vertical (q := q) hvertical
    have hbc := not_crosses_horizontal (q := q) hhorizontal
    have hcrossings : crossings q (a :: b :: c :: rest) =
        crossings q (c :: rest) + if Crosses q a b then 1 else 0 := by
      show ((a, b) :: (b, c) :: edges (c :: rest)).countP _ = _
      rw [List.countP_cons, List.countP_cons]
      simp only [decide_eq_true_eq, hbc, if_false]
      rfl
    rw [hcrossings]
    show _ = (a :: b :: (c :: rest).dropLast).countP _ % 2
    rw [List.countP_cons, List.countP_cons]
    simp only [decide_eq_true_eq]
    omega

/-- **Off the edges** it does not matter which corners at the coordinates of the point count. -/
theorem lowerLeft_mod_two {q : K × K} {polygon : List (K × K)} (horthogonal : Orthogonal polygon) (hclosed : Closed polygon)
    (hoff : OffEdges q polygon) (atX atY : Bool) :
    crossings q polygon % 2 = polygon.dropLast.countP (LowerLeft atX atY q ·) % 2 := by
  rw [crossings_mod_two q horthogonal, dropLast_mod_two false atX false horthogonal hoff,
    countP_dropLast hclosed, tail_mod_two atX false atY horthogonal hoff, countP_dropLast hclosed]

end

/-! ## Rectangles -/

/-- The four corners of a rectangle, in any order. -/
def IsRectangle (r : List (K × K)) : Prop :=
  ∃ x₁ x₂ y₁ y₂, (x₁ ≤ x₂ ∧ y₁ ≤ y₂) ∧ r.Perm [(x₁, y₁), (x₂, y₁), (x₁, y₂), (x₂, y₂)]

/-- The point is in the rectangle, on a side perhaps. -/
def Covers (q : K × K) (r : List (K × K)) : Prop :=
  ((∃ a ∈ r, a.1 ≤ q.1) ∧ ∃ a ∈ r, q.1 ≤ a.1) ∧ (∃ a ∈ r, a.2 ≤ q.2) ∧ ∃ a ∈ r, q.2 ≤ a.2

/-- The point is in the rectangle, and on no side. -/
def Inside (q : K × K) (r : List (K × K)) : Prop :=
  ((∃ a ∈ r, a.1 < q.1) ∧ ∃ a ∈ r, q.1 < a.1) ∧ (∃ a ∈ r, a.2 < q.2) ∧ ∃ a ∈ r, q.2 < a.2

def OnSide (q : K × K) (r : List (K × K)) : Prop := Covers q r ∧ ¬ Inside q r

/-- The point is in the rectangle with the left side if corners at its `x` count, and with the right side
otherwise; with the lower or the upper one alike. -/
def HalfOpen (atX atY : Bool) (q : K × K) (r : List (K × K)) : Prop :=
  ((∃ a ∈ r, Before atX a.1 q.1) ∧ ∃ a ∈ r, ¬ Before atX a.1 q.1) ∧
    (∃ a ∈ r, Before atY a.2 q.2) ∧ ∃ a ∈ r, ¬ Before atY a.2 q.2

instance (q : K × K) (r : List (K × K)) : Decidable (Covers q r) := inferInstanceAs (Decidable ((_ ∧ _) ∧ _))

instance (q : K × K) (r : List (K × K)) : Decidable (Inside q r) := inferInstanceAs (Decidable ((_ ∧ _) ∧ _))

instance (atX atY : Bool) (q : K × K) (r : List (K × K)) : Decidable (HalfOpen atX atY q r) :=
  inferInstanceAs (Decidable ((_ ∧ _) ∧ _))

/-- Rectangles with no point inside of both. -/
def InteriorDisjoint (r r' : List (K × K)) : Prop := ∀ p, ¬ (Inside p r ∧ Inside p r')

section
variable {r : List (K × K)} {x₁ x₂ y₁ y₂ : K}

theorem exists_corner {L : Type} {r : List (L × L)} {x₁ x₂ y₁ y₂ : L}
    (h : r.Perm [(x₁, y₁), (x₂, y₁), (x₁, y₂), (x₂, y₂)]) (P : L → Prop) :
    ((∃ a ∈ r, P a.1) ↔ P x₁ ∨ P x₂) ∧ ((∃ a ∈ r, P a.2) ↔ P y₁ ∨ P y₂) := by
  simp only [h.mem_iff, List.mem_cons, List.not_mem_nil, or_false, exists_eq_or_imp, exists_eq_left]
  tauto

theorem Before.mono {atX : Bool} {a b q : K} (hab : a ≤ b) (h : Before atX b q) : Before atX a q := by
  cases atX with
  | true => exact le_trans hab h
  | false => exact lt_of_le_of_lt hab h

theorem le_of_before {atX : Bool} {a q : K} (h : Before atX a q) : a ≤ q := by
  cases atX with
  | true => exact h
  | false => exact le_of_lt h

theorem le_of_not_before {atX : Bool} {a q : K} (h : ¬ Before atX a q) : q ≤ a := by
  cases atX with
  | true => exact le_of_lt (not_le.mp h)
  | false => exact not_lt.mp h

/-- Corners come in pairs at any `x`, and at any `y`. -/
theorem IsRectangle.even_countP (hr : IsRectangle r) (P : K → Bool) :
    Even (r.countP (P ·.1)) ∧ Even (r.countP (P ·.2)) := by
  obtain ⟨x₁, x₂, y₁, y₂, -, hperm⟩ := hr
  rw [hperm.countP_eq, hperm.countP_eq]
  refine ⟨⟨[x₁, x₂].countP P, ?_⟩, ⟨[y₁, y₂].countP P, ?_⟩⟩
  · simp only [List.countP_cons, List.countP_nil]
    omega
  · simp only [List.countP_cons, List.countP_nil]
    omega

/-- A rectangle stays one when its coordinates are moved, each the same way at all corners and in order. -/
theorem IsRectangle.map (hr : IsRectangle r) {f g : K → K} (hf : Monotone f) (hg : Monotone g) :
    IsRectangle (r.map fun a => (f a.1, g a.2)) := by
  obtain ⟨x₁, x₂, y₁, y₂, ⟨hx, hy⟩, hperm⟩ := hr
  exact ⟨f x₁, f x₂, g y₁, g y₂, ⟨hf hx, hg hy⟩, hperm.map _⟩

theorem covers_iff (hle : x₁ ≤ x₂ ∧ y₁ ≤ y₂) (h : r.Perm [(x₁, y₁), (x₂, y₁), (x₁, y₂), (x₂, y₂)]) (q : K × K) :
    Covers q r ↔ (x₁ ≤ q.1 ∧ q.1 ≤ x₂) ∧ y₁ ≤ q.2 ∧ q.2 ≤ y₂ := by
  rw [Covers, (exists_corner h (· ≤ q.1)).1, (exists_corner h (q.1 ≤ ·)).1, (exists_corner h (· ≤ q.2)).2,
    (exists_corner h (q.2 ≤ ·)).2]
  have hx : (x₁ ≤ q.1 ∨ x₂ ≤ q.1) ↔ x₁ ≤ q.1 := or_iff_left_of_imp (le_trans hle.1)
  have hx' : (q.1 ≤ x₁ ∨ q.1 ≤ x₂) ↔ q.1 ≤ x₂ := or_iff_right_of_imp fun h => le_trans h hle.1
  have hy : (y₁ ≤ q.2 ∨ y₂ ≤ q.2) ↔ y₁ ≤ q.2 := or_iff_left_of_imp (le_trans hle.2)
  have hy' : (q.2 ≤ y₁ ∨ q.2 ≤ y₂) ↔ q.2 ≤ y₂ := or_iff_right_of_imp fun h => le_trans h hle.2
  rw [hx, hx', hy, hy']

theorem inside_iff (hle : x₁ ≤ x₂ ∧ y₁ ≤ y₂) (h : r.Perm [(x₁, y₁), (x₂, y₁), (x₁, y₂), (x₂, y₂)]) (q : K × K) :
    Inside q r ↔ (x₁ < q.1 ∧ q.1 < x₂) ∧ y₁ < q.2 ∧ q.2 < y₂ := by
  rw [Inside, (exists_corner h (· < q.1)).1, (exists_corner h (q.1 < ·)).1, (exists_corner h (· < q.2)).2,
    (exists_corner h (q.2 < ·)).2]
  have hx : (x₁ < q.1 ∨ x₂ < q.1) ↔ x₁ < q.1 := or_iff_left_of_imp (lt_of_le_of_lt hle.1)
  have hx' : (q.1 < x₁ ∨ q.1 < x₂) ↔ q.1 < x₂ := or_iff_right_of_imp fun h => lt_of_lt_of_le h hle.1
  have hy : (y₁ < q.2 ∨ y₂ < q.2) ↔ y₁ < q.2 := or_iff_left_of_imp (lt_of_le_of_lt hle.2)
  have hy' : (q.2 < y₁ ∨ q.2 < y₂) ↔ q.2 < y₂ := or_iff_right_of_imp fun h => lt_of_lt_of_le h hle.2
  rw [hx, hx', hy, hy']

theorem halfOpen_iff (hle : x₁ ≤ x₂ ∧ y₁ ≤ y₂) (h : r.Perm [(x₁, y₁), (x₂, y₁), (x₁, y₂), (x₂, y₂)])
    (atX atY : Bool) (q : K × K) : HalfOpen atX atY q r ↔
      (Before atX x₁ q.1 ∧ ¬ Before atX x₂ q.1) ∧ Before atY y₁ q.2 ∧ ¬ Before atY y₂ q.2 := by
  rw [HalfOpen, (exists_corner h (Before atX · q.1)).1, (exists_corner h (¬ Before atX · q.1)).1,
    (exists_corner h (Before atY · q.2)).2, (exists_corner h (¬ Before atY · q.2)).2]
  have hx : (Before atX x₁ q.1 ∨ Before atX x₂ q.1) ↔ Before atX x₁ q.1 := or_iff_left_of_imp (Before.mono hle.1)
  have hx' : (¬ Before atX x₁ q.1 ∨ ¬ Before atX x₂ q.1) ↔ ¬ Before atX x₂ q.1 :=
    or_iff_right_of_imp fun h h₂ => h (Before.mono hle.1 h₂)
  have hy : (Before atY y₁ q.2 ∨ Before atY y₂ q.2) ↔ Before atY y₁ q.2 := or_iff_left_of_imp (Before.mono hle.2)
  have hy' : (¬ Before atY y₁ q.2 ∨ ¬ Before atY y₂ q.2) ↔ ¬ Before atY y₂ q.2 :=
    or_iff_right_of_imp fun h h₂ => h (Before.mono hle.2 h₂)
  rw [hx, hx', hy, hy']

/-- **One corner on the lower left, or three**, if the point is in the rectangle. -/
theorem countP_lowerLeft (hr : IsRectangle r) (atX atY : Bool) (q : K × K) :
    r.countP (LowerLeft atX atY q ·) % 2 = if HalfOpen atX atY q r then 1 else 0 := by
  obtain ⟨x₁, x₂, y₁, y₂, hle, hperm⟩ := hr
  have hx : Before atX x₂ q.1 → Before atX x₁ q.1 := Before.mono hle.1
  have hy : Before atY y₂ q.2 → Before atY y₁ q.2 := Before.mono hle.2
  rw [hperm.countP_eq, if_congr (halfOpen_iff hle hperm atX atY q) rfl rfl]
  simp only [List.countP_cons, List.countP_nil, LowerLeft]
  by_cases hx₁ : Before atX x₁ q.1
  · by_cases hx₂ : Before atX x₂ q.1
    · by_cases hy₁ : Before atY y₁ q.2
      · by_cases hy₂ : Before atY y₂ q.2
        · simp [hx₁, hx₂, hy₁, hy₂]
        · simp [hx₁, hx₂, hy₁, hy₂]
      · simp [hy₁, mt hy hy₁]
    · by_cases hy₁ : Before atY y₁ q.2
      · by_cases hy₂ : Before atY y₂ q.2
        · simp [hx₁, hx₂, hy₁, hy₂]
        · simp [hx₁, hx₂, hy₁, hy₂]
      · simp [hy₁, mt hy hy₁]
  · simp [hx₁, mt hx hx₁]

theorem Covers.of_halfOpen (hr : IsRectangle r) {atX atY : Bool} {q : K × K} (h : HalfOpen atX atY q r) :
    Covers q r := by
  obtain ⟨x₁, x₂, y₁, y₂, hle, hperm⟩ := hr
  obtain ⟨⟨hx₁, hx₂⟩, hy₁, hy₂⟩ := (halfOpen_iff hle hperm atX atY q).mp h
  exact (covers_iff hle hperm q).mpr
    ⟨⟨le_of_before hx₁, le_of_not_before hx₂⟩, le_of_before hy₁, le_of_not_before hy₂⟩

/-- Off the sides it does not matter which of them belong to the rectangle. -/
theorem halfOpen_iff_covers (hr : IsRectangle r) {q : K × K} (hoff : ¬ OnSide q r) (atX atY : Bool) :
    HalfOpen atX atY q r ↔ Covers q r := by
  constructor
  · exact Covers.of_halfOpen hr
  · intro hcovers
    have hinside : Inside q r := by
      by_contra hnot
      exact hoff ⟨hcovers, hnot⟩
    obtain ⟨x₁, x₂, y₁, y₂, hle, hperm⟩ := hr
    obtain ⟨⟨hx₁, hx₂⟩, hy₁, hy₂⟩ := (inside_iff hle hperm q).mp hinside
    rw [halfOpen_iff hle hperm]
    refine ⟨⟨?_, fun h => absurd (le_of_before h) (not_le_of_gt hx₂)⟩, ?_,
      fun h => absurd (le_of_before h) (not_le_of_gt hy₂)⟩
    · cases atX with
      | true => exact hx₁.le
      | false => exact hx₁
    · cases atY with
      | true => exact hy₁.le
      | false => exact hy₁

/-- A rectangle with a point inside has two of its sides wherever it covers a point. -/
theorem exists_halfOpen (hr : IsRectangle r) {p q : K × K} (hp : Inside p r) (hq : Covers q r) :
    ∃ atX atY, HalfOpen atX atY q r := by
  obtain ⟨x₁, x₂, y₁, y₂, hle, hperm⟩ := hr
  obtain ⟨⟨hpx₁, hpx₂⟩, hpy₁, hpy₂⟩ := (inside_iff hle hperm p).mp hp
  obtain ⟨⟨hx₁, hx₂⟩, hy₁, hy₂⟩ := (covers_iff hle hperm q).mp hq
  have hside : ∀ {a b c : K}, a < b → a ≤ c → c ≤ b → ∃ orAt, Before orAt a c ∧ ¬ Before orAt b c := by
    intro a b c hab hac hcb
    rcases hcb.lt_or_eq with hlt | rfl
    · exact ⟨true, hac, not_le_of_gt hlt⟩
    · exact ⟨false, hab, lt_irrefl c⟩
  obtain ⟨atX, hx⟩ := hside (hpx₁.trans hpx₂) hx₁ hx₂
  obtain ⟨atY, hy⟩ := hside (hpy₁.trans hpy₂) hy₁ hy₂
  exact ⟨atX, atY, (halfOpen_iff hle hperm atX atY q).mpr ⟨hx, hy⟩⟩

variable [DenselyOrdered K]

/-- Something of both intervals lies next to a point of both. -/
theorem exists_between_both {a b a' b' c : K} {orAt : Bool} (h : Before orAt a c ∧ ¬ Before orAt b c)
    (h' : Before orAt a' c ∧ ¬ Before orAt b' c) : ∃ p, (a < p ∧ p < b) ∧ a' < p ∧ p < b' := by
  cases orAt with
  | true =>
    obtain ⟨p, hcp, hp⟩ := exists_between (lt_min (not_le.mp h.2) (not_le.mp h'.2))
    rw [lt_min_iff] at hp
    exact ⟨p, ⟨lt_of_le_of_lt h.1 hcp, hp.1⟩, lt_of_le_of_lt h'.1 hcp, hp.2⟩
  | false =>
    obtain ⟨p, hp, hpc⟩ := exists_between (max_lt h.1 h'.1)
    rw [max_lt_iff] at hp
    exact ⟨p, ⟨hp.1, lt_of_lt_of_le hpc (not_lt.mp h.2)⟩, hp.2, lt_of_lt_of_le hpc (not_lt.mp h'.2)⟩

theorem exists_inside_both {r' : List (K × K)} (hr : IsRectangle r) (hr' : IsRectangle r') {atX atY : Bool}
    {q : K × K} (h : HalfOpen atX atY q r) (h' : HalfOpen atX atY q r') : ∃ p, Inside p r ∧ Inside p r' := by
  obtain ⟨x₁, x₂, y₁, y₂, hle, hperm⟩ := hr
  obtain ⟨x₁', x₂', y₁', y₂', hle', hperm'⟩ := hr'
  obtain ⟨hx, hy⟩ := (halfOpen_iff hle hperm atX atY q).mp h
  obtain ⟨hx', hy'⟩ := (halfOpen_iff hle' hperm' atX atY q).mp h'
  obtain ⟨px, hpx, hpx'⟩ := exists_between_both hx hx'
  obtain ⟨py, hpy, hpy'⟩ := exists_between_both hy hy'
  exact ⟨(px, py), (inside_iff hle hperm _).mpr ⟨hpx, hpy⟩, (inside_iff hle' hperm' _).mpr ⟨hpx', hpy'⟩⟩

end

/-- Of elements that exclude each other one is counted at most. -/
theorem countP_of_pairwise {α : Type} {P : α → Bool} {l : List α} (h : l.Pairwise fun a b => ¬ (P a = true ∧ P b = true)) :
    l.countP P % 2 = 1 ↔ ∃ a ∈ l, P a = true := by
  induction l with
  | nil => simp
  | cons a l ih =>
    rw [List.pairwise_cons] at h
    rw [List.countP_cons]
    cases ha : P a with
    | true =>
      have hnone : l.countP P = 0 := by
        rw [List.countP_eq_zero]
        exact fun b hb hPb => h.1 b hb ⟨ha, hPb⟩
      rw [hnone]
      exact iff_of_true rfl ⟨a, List.mem_cons_self, ha⟩
    | false =>
      rw [if_neg Bool.false_ne_true, Nat.add_zero, ih h.2]
      simp [ha]

/-- **Rectangles side by side** cover the points that an odd number of them has, with any two of the sides. -/
theorem odd_halfOpen_iff [DenselyOrdered K] {rectangles : List (List (K × K))}
    (hrect : ∀ r ∈ rectangles, IsRectangle r) (hdisjoint : rectangles.Pairwise InteriorDisjoint) {q : K × K} {m : Nat}
    (hm : ∀ atX atY, rectangles.countP (HalfOpen atX atY q ·) % 2 = m) :
    m = 1 ↔ ∃ r ∈ rectangles, (∃ p, Inside p r) ∧ Covers q r := by
  have hcount : ∀ atX atY, m = 1 ↔ ∃ r ∈ rectangles, HalfOpen atX atY q r := by
    intro atX atY
    have hpairwise : rectangles.Pairwise fun r r' =>
        ¬ (decide (HalfOpen atX atY q r) = true ∧ decide (HalfOpen atX atY q r') = true) := by
      apply hdisjoint.imp_of_mem
      intro r r' hr hr' hnone hboth
      rw [decide_eq_true_eq, decide_eq_true_eq] at hboth
      obtain ⟨p, hp⟩ := exists_inside_both (hrect r hr) (hrect r' hr') hboth.1 hboth.2
      exact hnone p hp
    rw [← hm atX atY, countP_of_pairwise hpairwise]
    simp only [decide_eq_true_eq]
  constructor
  · intro h
    obtain ⟨r, hr, hq⟩ := (hcount false false).mp h
    obtain ⟨p, hp, -⟩ := exists_inside_both (hrect r hr) (hrect r hr) hq hq
    exact ⟨r, hr, ⟨p, hp⟩, .of_halfOpen (hrect r hr) hq⟩
  · rintro ⟨r, hr, ⟨p, hp⟩, hq⟩
    obtain ⟨atX, atY, hhalf⟩ := exists_halfOpen (hrect r hr) hp hq
    exact (hcount atX atY).mpr ⟨r, hr, hhalf⟩

end Polygon

end Oxool
