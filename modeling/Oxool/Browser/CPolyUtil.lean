import Mathlib.Algebra.Order.AbsoluteValue.Basic
import Mathlib.Data.Fintype.Card
import Mathlib.Data.List.FinRange
import Mathlib.Data.List.Sort
import Mathlib.Data.Prod.Lex
import Mathlib.Data.Rat.Floor
import Mathlib.Tactic.Linarith
import Oxool.Lib.Matchings
import Oxool.Lib.Polygons

/-!
# Outlines of selections (`browser/src/layer/vector/CPolyUtil.ts`)

A selection comes as rectangles, by their corners. `rectanglesToPointSet` draws its outline: the corners are
sorted by rows and taken two by two, and so are they by columns; the horizontal and the vertical edges that
come about are followed in turns, until the walk is back where it started.

A corner is an object of its own, which the maps have for a key; here it is known by its number. Numbers are
exact.
-/

set_option autoImplicit false

namespace Oxool.Browser.CPolyUtil

open Oxool.Polygon (IsRectangle Orthogonal OffEdges HalfOpen Covers OnSide InteriorDisjoint Inside LowerLeft crossings
  countP_lowerLeft)

/-! ## The code -/

abbrev Point := ℚ × ℚ

/-- `Number.EPSILON`. -/
def epsilon : ℚ := 1 / 2 ^ 52

/-- `Point.equals`. -/
def equals (p q : Point) : Bool := |q.1 - p.1| < epsilon && |q.2 - p.2| < epsilon

/-- Rectangles with less than this between them are glued. -/
def eps : ℚ := 20

/-- A corner is moved onto the coordinates of another. -/
def gluePoint (p q : Point) : Point :=
  (if |p.1 - q.1| < eps then p.1 else q.1, if |p.2 - q.2| < eps then p.2 else q.2)

/-- The loops over the corners of two rectangles. -/
def glueRectangle (ri rj : List Point) : List Point := ri.foldl (fun rj p => rj.map (gluePoint p)) rj

/-- The loops over the rectangles, of which there are no more than the fuel. -/
def glueLoop : Nat → List (List Point) → List (List Point)
  | fuel + 1, ri :: rectangles => ri :: glueLoop fuel (rectangles.map (glueRectangle ri))
  | _, rectangles => rectangles

/-- Glue rectangles if the space between them is less then eps -/
def glue (rectangles : List (List Point)) : List (List Point) := glueLoop rectangles.length rectangles

def xThenY (ap bp : Point) : Int :=
  if ap.1 < bp.1 ∨ ap.1 = bp.1 ∧ ap.2 < bp.2 then -1
  else if ap.1 = bp.1 ∧ ap.2 = bp.2 then 0
  else 1

def yThenX (ap bp : Point) : Int :=
  if ap.2 < bp.2 ∨ ap.2 = bp.2 ∧ ap.1 < bp.1 then -1
  else if ap.1 = bp.1 ∧ ap.2 = bp.2 then 0
  else 1

section
variable {n : Nat}

/-- `sort`, which is stable. -/
def sort (points : Fin n → Point) (compare : Point → Point → Int) : List (Fin n) :=
  (List.finRange n).insertionSort fun a b => compare (points a) (points b) ≤ 0

/-- A map from corner to corner. -/
abbrev Edges (n : Nat) := List (Fin n × Fin n)

/-- The inner loop over the corners of a row (or of a column): the edges, and the corners behind it. -/
def edgesInRow (coordinate : Fin n → ℚ) (curr : ℚ) : List (Fin n) → Edges n × List (Fin n)
  | a :: b :: rest =>
    if coordinate a = curr then
      let (edges, rest) := edgesInRow coordinate curr rest
      ((a, b) :: (b, a) :: edges, rest)
    else ([], a :: b :: rest)
  | rest => ([], rest)

/-- The outer loop. -/
def edgesFrom (coordinate : Fin n → ℚ) : Nat → List (Fin n) → Edges n
  | fuel + 1, a :: rest =>
    let (edges, rest) := edgesInRow coordinate (coordinate a) (a :: rest)
    edges ++ edgesFrom coordinate fuel rest
  | _, _ => []

/-- The walk from `start`; `visited` and `curr` are its corners so far. `none` where no edge leads on. -/
def walk (points : Fin n → Point) (start : Fin n) :
    Nat → List (Fin n) → Fin n → Bool → Edges n → Edges n → Option (List (Fin n) × Edges n × Edges n)
  | 0, _, _, _, _, _ => none
  | fuel + 1, visited, curr, horizontal, edgesH, edgesV => do
    let nextVertex ← (if horizontal then edgesH else edgesV).lookup curr
    let edgesH := if horizontal then edgesH.filter fun e => e.1 ≠ curr else edgesH
    let edgesV := if horizontal then edgesV else edgesV.filter fun e => e.1 ≠ curr
    if equals (points nextVertex) (points start) && horizontal then
      return (visited ++ [curr], edgesH, edgesV)
    walk points start fuel (visited ++ [curr]) nextVertex (!horizontal) edgesH edgesV

/-- The loop over the polygons, by their corners. -/
def polygonsFrom (points : Fin n → Point) : Nat → Edges n → Edges n → Option (List (List (Fin n)))
  | 0, _, _ => none
  | _ + 1, [], _ => some []
  | fuel + 1, (start, a) :: edgesH, edgesV => do
    let (p, edgesH, edgesV) ← walk points start n [] start false ((start, a) :: edgesH) edgesV
    let polygons ← polygonsFrom points fuel (deleteAll edgesH p) (deleteAll edgesV p)
    return p :: polygons

/-- The points of a polygon, with the first again behind the last. -/
def polygonOf (points : Fin n → Point) (unitConverter : Point → Point) (p : List (Fin n)) : List Point :=
  (p ++ p.take 1).map fun a => unitConverter (points a)

end

/-- `none` where `undefined` would be looked at, or where a loop does not end. -/
def rectanglesToPointSet (rectangles : List (List Point)) (unitConverter : Point → Point) :
    Option (List (List Point)) :=
  let corners := (glue rectangles).flatten
  let points := corners.get
  let edgesH := edgesFrom (fun a => (points a).2) corners.length (sort points yThenX)
  let edgesV := edgesFrom (fun a => (points a).1) corners.length (sort points xThenY)
  (polygonsFrom points (corners.length + 1) edgesH edgesV).map fun polygons =>
    polygons.map (polygonOf points unitConverter)

/-! ## Walks -/

section
variable {n : Nat} {points : Fin n → Point} {H V : Matching (Fin n)} {R : Fin n → Prop} {start : Fin n}

theorem equals_self (p : Point) : equals p p = true := by
  have hpos : (0 : ℚ) < epsilon := by norm_num [epsilon]
  simp [equals, hpos]

/-- Corners that are left when a walk starts. No other is equal to the first one, unless it is the next one in
both directions. -/
structure Remaining (points : Fin n → Point) (H V : Matching (Fin n)) (R : Fin n → Prop) (start : Fin n) :
    Prop where
  start_mem : R start
  horizontal : ∀ a, R a → R (H.mate a)
  vertical : ∀ a, R a → R (V.mate a)
  equal : ∀ a, R a → equals (points a) (points start) = true → a = start ∨ H.mate start = V.mate start

/-- The corners of a walk so far: those behind its vertical edges are mates, and so are those behind its
horizontal ones, all but the first and the last corner. -/
structure Path (H V : Matching (Fin n)) (R : Fin n → Prop) (start : Fin n) (visited : List (Fin n))
    (curr : Fin n) (horizontal : Bool) : Prop where
  nodup : (visited ++ [curr]).Nodup
  mem : ∀ a ∈ visited ++ [curr], R a
  start_mem : start ∈ if horizontal then visited else visited ++ [curr]
  vertical : ∀ a ∈ if horizontal then visited ++ [curr] else visited,
    V.mate a ∈ if horizontal then visited ++ [curr] else visited
  horizontal : ∀ a ∈ if horizontal then visited else visited ++ [curr], a ≠ start →
    (H.mate a ∈ if horizontal then visited else visited ++ [curr]) ∧ H.mate a ≠ start

/-- The corners of a walk that is back: all that can be reached from the first. -/
structure Cycle (H V : Matching (Fin n)) (R : Fin n → Prop) (start : Fin n) (p : List (Fin n)) : Prop where
  nodup : p.Nodup
  mem : ∀ a ∈ p, R a
  start_mem : start ∈ p
  vertical : ∀ a ∈ p, V.mate a ∈ p
  horizontal : ∀ a ∈ p, H.mate a ∈ p

theorem Path.single (h : R start) : Path H V R start [] start false where
  nodup := List.nodup_singleton start
  mem := fun a ha => by rw [List.mem_singleton.mp ha]; exact h
  start_mem := List.mem_singleton_self start
  vertical := fun a ha => by cases ha
  horizontal := fun a ha hne => absurd (List.mem_singleton.mp ha) hne

variable {visited : List (Fin n)} {curr : Fin n}

theorem nodup_concat {l : List (Fin n)} {a : Fin n} : (l ++ [a]).Nodup ↔ a ∉ l ∧ l.Nodup := by
  rw [← List.concat_eq_append, List.nodup_concat]

/-- **A vertical edge** leads to a new corner. -/
theorem Path.vertical_step (hR : Remaining points H V R start) (h : Path H V R start visited curr false) :
    Path H V R start (visited ++ [curr]) (V.mate curr) true := by
  have hcurr : curr ∉ visited := (nodup_concat.mp h.nodup).1
  have hnew : V.mate curr ∉ visited ++ [curr] := by
    intro hmem
    rcases List.mem_append.mp hmem with hvisited | hself
    · have hback := h.vertical _ hvisited
      rw [V.mate_mate] at hback
      exact hcurr hback
    · exact V.mate_ne curr (List.mem_singleton.mp hself)
  refine ⟨nodup_concat.mpr ⟨hnew, h.nodup⟩, ?_, h.start_mem, ?_, h.horizontal⟩
  · intro a ha
    rcases List.mem_append.mp ha with ha | ha
    · exact h.mem a ha
    · rw [List.mem_singleton.mp ha]
      exact hR.vertical curr (h.mem curr (List.mem_append_right _ (List.mem_singleton_self curr)))
  · intro a ha
    rw [if_pos rfl] at ha ⊢
    rcases List.mem_append.mp ha with ha | ha
    · rcases List.mem_append.mp ha with ha | ha
      · exact List.mem_append_left _ (List.mem_append_left _ (h.vertical a ha))
      · rw [List.mem_singleton.mp ha]
        exact List.mem_append_right _ (List.mem_singleton_self _)
    · rw [List.mem_singleton.mp ha, V.mate_mate]
      exact List.mem_append_left _ (List.mem_append_right _ (List.mem_singleton_self curr))

theorem Path.curr_ne_start (h : Path H V R start visited curr true) : curr ≠ start := by
  rintro rfl
  exact (nodup_concat.mp h.nodup).1 h.start_mem

/-- **A horizontal edge** leads to a new corner, or back to the first. -/
theorem Path.horizontal_step (hR : Remaining points H V R start) (h : Path H V R start visited curr true)
    (hne : H.mate curr ≠ start) : Path H V R start (visited ++ [curr]) (H.mate curr) false := by
  have hcurr : curr ∉ visited := (nodup_concat.mp h.nodup).1
  have hnew : H.mate curr ∉ visited ++ [curr] := by
    intro hmem
    rcases List.mem_append.mp hmem with hvisited | hself
    · have hback := (h.horizontal _ hvisited hne).1
      rw [H.mate_mate] at hback
      exact hcurr hback
    · exact H.mate_ne curr (List.mem_singleton.mp hself)
  refine ⟨nodup_concat.mpr ⟨hnew, h.nodup⟩, ?_, ?_, h.vertical, ?_⟩
  · intro a ha
    rcases List.mem_append.mp ha with ha | ha
    · exact h.mem a ha
    · rw [List.mem_singleton.mp ha]
      exact hR.horizontal curr (h.mem curr (List.mem_append_right _ (List.mem_singleton_self curr)))
  · exact List.mem_append_left _ (List.mem_append_left _ h.start_mem)
  · intro a ha hastart
    rw [if_neg Bool.false_ne_true] at ha ⊢
    rcases List.mem_append.mp ha with ha | ha
    · rcases List.mem_append.mp ha with ha | ha
      · obtain ⟨hmem, hmate⟩ := h.horizontal a ha hastart
        exact ⟨List.mem_append_left _ (List.mem_append_left _ hmem), hmate⟩
      · rw [List.mem_singleton.mp ha]
        exact ⟨List.mem_append_right _ (List.mem_singleton_self _), hne⟩
    · rw [List.mem_singleton.mp ha, H.mate_mate]
      exact ⟨List.mem_append_left _ (List.mem_append_right _ (List.mem_singleton_self curr)), h.curr_ne_start⟩

/-- The walk is back. -/
theorem Path.cycle (h : Path H V R start visited curr true) (hback : H.mate curr = start) :
    Cycle H V R start (visited ++ [curr]) where
  nodup := h.nodup
  mem := h.mem
  start_mem := List.mem_append_left _ h.start_mem
  vertical := h.vertical
  horizontal := by
    intro a ha
    rcases List.mem_append.mp ha with ha | ha
    · by_cases hastart : a = start
      · rw [hastart, ← hback, H.mate_mate]
        exact List.mem_append_right _ (List.mem_singleton_self curr)
      · exact List.mem_append_left _ (h.horizontal a ha hastart).1
    · rw [List.mem_singleton.mp ha, hback]
      exact List.mem_append_left _ h.start_mem

/-- A walk is taken to be back only where it is. -/
theorem Path.equals_start (hR : Remaining points H V R start) (h : Path H V R start visited curr true) :
    equals (points (H.mate curr)) (points start) = true ↔ H.mate curr = start := by
  constructor
  · intro hequals
    have hmem : R (H.mate curr) :=
      hR.horizontal curr (h.mem curr (List.mem_append_right _ (List.mem_singleton_self curr)))
    rcases hR.equal _ hmem hequals with hstart | hboth
    · exact hstart
    · -- the corner next to the first in both directions was the first to be visited, so that it is the last one
      have hnext := h.vertical start (List.mem_append_left _ h.start_mem)
      rw [if_pos rfl, ← hboth] at hnext
      rcases List.mem_append.mp hnext with hvisited | hcurr
      · have hne := (h.horizontal _ hvisited (H.mate_ne start)).2
        rw [H.mate_mate] at hne
        exact absurd rfl hne
      · rw [← List.mem_singleton.mp hcurr, H.mate_mate]
  · intro hstart
    rw [hstart]
    exact equals_self _

/-- A map without some corners, and without one more. -/
theorem filter_filter_ne (edges : Edges n) (deleted : List (Fin n)) (a : Fin n) :
    ((edges.filter fun e => e.1 ∉ deleted).filter fun e => e.1 ≠ a) = edges.filter fun e => e.1 ∉ a :: deleted := by
  rw [List.filter_filter]
  apply List.filter_congr
  intro e _
  simp only [List.mem_cons, not_or, Bool.decide_and]

theorem lookup_filter_notMem {edges : Edges n} {deleted : List (Fin n)} {a b : Fin n} (h : edges.lookup a = some b)
    (ha : a ∉ deleted) : (edges.filter fun e => e.1 ∉ deleted).lookup a = some b := by
  rw [Assoc.lookup_filter (fun a => a ∉ deleted), if_pos (decide_eq_true ha), h]

theorem length_lt_of_nodup {l : List (Fin n)} {a : Fin n} (h : (l ++ [a]).Nodup) : l.length < n := by
  have hlength := List.Nodup.length_le_card h
  rw [List.length_append, List.length_singleton, Fintype.card_fin] at hlength
  exact hlength

/-- **A walk comes back**, and no edge is missing on it. -/
theorem walk_spec {edgesH edgesV : Edges n} (hR : Remaining points H V R start)
    (hH : ∀ a, R a → edgesH.lookup a = some (H.mate a)) (hV : ∀ a, R a → edgesV.lookup a = some (V.mate a))
    {fuel : Nat} {horizontal : Bool} (hpath : Path H V R start visited curr horizontal) {deletedH deletedV : List (Fin n)}
    (hdeletedH : deletedH ⊆ visited) (hdeletedV : deletedV ⊆ visited) (hfuel : n < visited.length + 1 + fuel) :
    ∃ rest deletedH' deletedV', walk points start fuel visited curr horizontal
        (edgesH.filter fun e => e.1 ∉ deletedH) (edgesV.filter fun e => e.1 ∉ deletedV) =
          some (visited ++ rest, edgesH.filter fun e => e.1 ∉ deletedH', edgesV.filter fun e => e.1 ∉ deletedV') ∧
      deletedH' ⊆ visited ++ rest ∧ deletedV' ⊆ visited ++ rest ∧ Cycle H V R start (visited ++ rest) ∧
      Alternating (fun a b => V.mate a = b) (fun a b => H.mate a = b) horizontal (rest ++ [start]) ∧
      rest.head? = some curr := by
  induction fuel generalizing visited curr horizontal deletedH deletedV with
  | zero => exact absurd (length_lt_of_nodup hpath.nodup) (Nat.not_lt_of_ge (Nat.le_of_lt_succ hfuel))
  | succ fuel ih =>
    have hcurr : R curr := hpath.mem curr (List.mem_append_right _ (List.mem_singleton_self curr))
    have hnotVisited : curr ∉ visited := (nodup_concat.mp hpath.nodup).1
    have hfuel' : n < (visited ++ [curr]).length + 1 + fuel := by
      rw [List.length_append, List.length_singleton]
      omega
    have hsubset : ∀ {deleted : List (Fin n)}, deleted ⊆ visited → curr :: deleted ⊆ visited ++ [curr] := by
      intro deleted h a ha
      rcases List.mem_cons.mp ha with rfl | ha
      · exact List.mem_append_right _ (List.mem_singleton_self _)
      · exact List.mem_append_left _ (h ha)
    cases horizontal with
    | false =>
      have hnext := lookup_filter_notMem (hV curr hcurr) (fun h => hnotVisited (hdeletedV h))
      rw [walk, if_neg Bool.false_ne_true, hnext]
      simp only [Option.bind_eq_bind, Option.bind_some, Bool.false_eq_true, if_false, Bool.and_false, Bool.not_false]
      rw [filter_filter_ne]
      obtain ⟨rest, deletedH', deletedV', heq, hsubH, hsubV, hcycle, halternating, hhead⟩ :=
        ih (hpath.vertical_step hR) (fun a ha => List.mem_append_left _ (hdeletedH ha)) (hsubset hdeletedV) hfuel'
      rw [List.append_assoc] at heq hsubH hsubV hcycle
      refine ⟨curr :: rest, deletedH', deletedV', heq, hsubH, hsubV, hcycle, ?_, rfl⟩
      cases rest with
      | nil => cases hhead
      | cons b rest =>
        rw [List.head?_cons, Option.some.injEq] at hhead
        exact ⟨hhead.symm, halternating⟩
    | true =>
      have hnext := lookup_filter_notMem (hH curr hcurr) (fun h => hnotVisited (hdeletedH h))
      rw [walk, if_pos rfl, hnext]
      simp only [Option.bind_eq_bind, Option.bind_some, if_true, Bool.and_true, Bool.not_true]
      rw [filter_filter_ne]
      by_cases hback : H.mate curr = start
      · rw [if_pos ((hpath.equals_start hR).mpr hback)]
        exact ⟨[curr], _, _, rfl, hsubset hdeletedH, fun a ha => List.mem_append_left _ (hdeletedV ha),
          hpath.cycle hback, ⟨hback, rfl⟩, rfl⟩
      · rw [if_neg (fun h => hback ((hpath.equals_start hR).mp h))]
        obtain ⟨rest, deletedH', deletedV', heq, hsubH, hsubV, hcycle, halternating, hhead⟩ :=
          ih (hpath.horizontal_step hR hback) (hsubset hdeletedH)
            (fun a ha => List.mem_append_left _ (hdeletedV ha)) hfuel'
        rw [List.append_assoc] at heq hsubH hsubV hcycle
        refine ⟨curr :: rest, deletedH', deletedV', heq, hsubH, hsubV, hcycle, ?_, rfl⟩
        cases rest with
        | nil => cases hhead
        | cons b rest =>
          rw [List.head?_cons, Option.some.injEq] at hhead
          exact ⟨hhead.symm, halternating⟩

/-! ## Polygons -/

/-- The edges that are left are taken out, up to those of the walk. -/
theorem deleteAll_filter {edges : Edges n} {removed deleted p : List (Fin n)} (h : deleted ⊆ p) :
    deleteAll ((edges.filter fun e => e.1 ∉ removed).filter fun e => e.1 ∉ deleted) p =
      edges.filter fun e => e.1 ∉ p ++ removed := by
  rw [deleteAll_eq, List.filter_filter, List.filter_filter]
  apply List.filter_congr
  intro e _
  by_cases hp : e.1 ∈ p
  · simp [hp]
  · have hdeleted : e.1 ∉ deleted := fun hd => hp (h hd)
    simp [hp, hdeleted]

/-- The corners that are left, walk by walk. -/
theorem perm_append_filter {keys removed p : List (Fin n)} (hkeys : keys.Nodup) (hall : ∀ a, a ∈ keys)
    (hp : p.Nodup) (hnew : ∀ a ∈ p, a ∉ removed) :
    (p ++ keys.filter fun a => a ∉ p ++ removed).Perm (keys.filter fun a => a ∉ removed) := by
  have hnodup : (p ++ keys.filter fun a => a ∉ p ++ removed).Nodup := by
    rw [List.nodup_append]
    refine ⟨hp, hkeys.filter _, ?_⟩
    rintro a ha b hb rfl
    have hnot := of_decide_eq_true (List.mem_filter.mp hb).2
    exact hnot (List.mem_append_left _ ha)
  rw [List.perm_ext_iff_of_nodup hnodup (hkeys.filter _)]
  intro a
  simp only [List.mem_append, List.mem_filter, decide_eq_true_eq, not_or, hall, true_and]
  constructor
  · rintro (ha | ⟨-, ha⟩)
    · exact hnew a ha
    · exact ha
  · intro ha
    by_cases hap : a ∈ p
    · exact .inl hap
    · exact .inr ⟨hap, ha⟩

/-- All corners as they are connected, and what makes a walk from the first one that is left come back there. -/
structure Connected (points : Fin n → Point) (H V : Matching (Fin n)) (edgesH edgesV : Edges n) : Prop where
  nodup : (edgesH.map Prod.fst).Nodup
  all : ∀ a, a ∈ edgesH.map Prod.fst
  horizontal : ∀ a, edgesH.lookup a = some (H.mate a)
  vertical : ∀ a, edgesV.lookup a = some (V.mate a)
  remaining : ∀ {removed : List (Fin n)}, (∀ a ∈ removed, H.mate a ∈ removed ∧ V.mate a ∈ removed) →
    ∀ {e : Fin n × Fin n}, (edgesH.filter fun e => e.1 ∉ removed).head? = some e →
      Remaining points H V (· ∉ removed) e.1

/-- A polygon as the walks give it. -/
def Follows (H V : Matching (Fin n)) (p : List (Fin n)) : Prop :=
  Alternating (fun a b => V.mate a = b) (fun a b => H.mate a = b) false (p ++ p.take 1)

/-- **Every corner is in one polygon**, and all polygons are closed. -/
theorem polygonsFrom_spec {edgesH edgesV : Edges n} (h : Connected points H V edgesH edgesV) {fuel : Nat}
    {removed : List (Fin n)} (hremoved : ∀ a ∈ removed, H.mate a ∈ removed ∧ V.mate a ∈ removed)
    (hfuel : (edgesH.filter fun e => e.1 ∉ removed).length < fuel) :
    ∃ polygons, polygonsFrom points fuel (edgesH.filter fun e => e.1 ∉ removed)
        (edgesV.filter fun e => e.1 ∉ removed) = some polygons ∧
      polygons.flatten.Perm ((edgesH.map Prod.fst).filter fun a => a ∉ removed) ∧
      ∀ p ∈ polygons, Follows H V p := by
  induction fuel generalizing removed with
  | zero => exact absurd hfuel (Nat.not_lt_zero _)
  | succ fuel ih =>
    have hkeys : ∀ removed : List (Fin n), (edgesH.filter fun e => e.1 ∉ removed).map Prod.fst =
        (edgesH.map Prod.fst).filter fun a => a ∉ removed := by
      intro removed
      rw [List.filter_map]
      rfl
    cases hleft : edgesH.filter fun e => e.1 ∉ removed with
    | nil =>
      refine ⟨[], rfl, ?_, fun p hp => by cases hp⟩
      rw [← hkeys, hleft]
      exact .nil
    | cons e left =>
      have hR := h.remaining hremoved (e := e) (by rw [hleft]; rfl)
      have hlookupH : ∀ a, a ∉ removed → (e :: left).lookup a = some (H.mate a) := by
        intro a ha
        rw [← hleft]
        exact lookup_filter_notMem (h.horizontal a) ha
      have hlookupV : ∀ a, a ∉ removed →
          (edgesV.filter fun e => e.1 ∉ removed).lookup a = some (V.mate a) :=
        fun a ha => lookup_filter_notMem (h.vertical a) ha
      have hsteps : n < ([] : List (Fin n)).length + 1 + n := by
        rw [List.length_nil]
        omega
      obtain ⟨p, deletedH, deletedV, heq, hsubH, hsubV, hcycle, halternating, hhead⟩ :=
        walk_spec hR hlookupH hlookupV (.single hR.start_mem) (List.nil_subset _) (List.nil_subset _) hsteps
      have hnil : ∀ edges : Edges n, (edges.filter fun e => e.1 ∉ ([] : List (Fin n))) = edges := by
        intro edges
        simp
      rw [hnil, hnil, List.nil_append] at heq
      rw [List.nil_append] at hsubH hsubV hcycle
      have hremoved' : ∀ a ∈ p ++ removed, H.mate a ∈ p ++ removed ∧ V.mate a ∈ p ++ removed := by
        intro a ha
        rcases List.mem_append.mp ha with ha | ha
        · exact ⟨List.mem_append_left _ (hcycle.horizontal a ha), List.mem_append_left _ (hcycle.vertical a ha)⟩
        · exact ⟨List.mem_append_right _ (hremoved a ha).1, List.mem_append_right _ (hremoved a ha).2⟩
      have hperm := perm_append_filter h.nodup h.all hcycle.nodup hcycle.mem
      have hfuel' : (edgesH.filter fun e => e.1 ∉ p ++ removed).length < fuel := by
        have hlength := hperm.length_eq
        have hpos : 0 < p.length := List.length_pos_of_mem hcycle.start_mem
        rw [List.length_append, ← hkeys, ← hkeys, List.length_map, List.length_map] at hlength
        omega
      obtain ⟨polygons, hpolygons, hflatten, hfollows⟩ := ih hremoved' hfuel'
      refine ⟨p :: polygons, ?_, ?_, ?_⟩
      · rw [polygonsFrom, heq, Option.bind_eq_bind, Option.bind_some]
        dsimp only
        rw [← hleft, deleteAll_filter hsubH, deleteAll_filter hsubV, hpolygons]
        rfl
      · rw [List.flatten_cons]
        exact (hflatten.append_left p).trans hperm
      · intro p' hp'
        rcases List.mem_cons.mp hp' with rfl | hp'
        · cases p' with
          | nil => cases hhead
          | cons a p =>
            rw [List.head?_cons, Option.some.injEq] at hhead
            rw [Follows, List.take_succ_cons, List.take_zero, hhead]
            rw [hhead] at halternating
            exact halternating
        · exact hfollows p' hp'

end

/-! ## Edges -/

section
variable {n : Nat} {points : Fin n → Point}

theorem edgesInRow_eq (coordinate : Fin n → ℚ) (curr : ℚ) : ∀ l : List (Fin n),
    (edgesInRow coordinate curr l).1 ++ paired (edgesInRow coordinate curr l).2 = paired l ∧
      (edgesInRow coordinate curr l).2.length ≤ l.length
  | [] => ⟨rfl, Nat.le_refl _⟩
  | [_] => ⟨rfl, Nat.le_refl _⟩
  | a :: b :: rest => by
    obtain ⟨heq, hlength⟩ := edgesInRow_eq coordinate curr rest
    rw [edgesInRow]
    split
    · refine ⟨?_, Nat.le_succ_of_le (Nat.le_succ_of_le hlength)⟩
      show (a, b) :: (b, a) :: ((edgesInRow coordinate curr rest).1 ++ _) = _
      rw [heq, paired]
    · exact ⟨rfl, Nat.le_refl _⟩

theorem edgesFrom_singleton (coordinate : Fin n → ℚ) (fuel : Nat) (a : Fin n) :
    edgesFrom coordinate fuel [a] = [] := by
  induction fuel with
  | zero => rfl
  | succ fuel ih => exact ih

/-- Corner by corner in pairs, whatever the rows. -/
theorem edgesFrom_eq (coordinate : Fin n → ℚ) {fuel : Nat} {l : List (Fin n)} (hfuel : l.length ≤ fuel) :
    edgesFrom coordinate fuel l = paired l := by
  induction fuel generalizing l with
  | zero =>
    rw [List.length_eq_zero_iff.mp (Nat.le_zero.mp hfuel)]
    rfl
  | succ fuel ih =>
    cases l with
    | nil => rfl
    | cons a l =>
      cases l with
      | nil => exact edgesFrom_singleton coordinate _ a
      | cons b rest =>
        obtain ⟨heq, hlength⟩ := edgesInRow_eq coordinate (coordinate a) rest
        rw [edgesFrom, edgesInRow, if_pos rfl]
        show (a, b) :: (b, a) :: ((edgesInRow coordinate (coordinate a) rest).1 ++ edgesFrom coordinate fuel _) = _
        rw [ih, heq, paired]
        rw [List.length_cons, List.length_cons] at hfuel
        omega

end

/-! ## Sorting -/

section
variable {n : Nat} {points : Fin n → Point}

theorem xThenY_le {p q : Point} : xThenY p q ≤ 0 ↔ toLex p ≤ toLex q := by
  rw [Prod.Lex.toLex_le_toLex, xThenY]
  split
  · next hlt =>
    refine iff_of_true (by decide) (hlt.imp id fun h => ⟨h.1, h.2.le⟩)
  · next hlt =>
    split
    · next heq => exact iff_of_true (Int.le_refl 0) (.inr ⟨heq.1, heq.2.le⟩)
    · next hne =>
      refine iff_of_false (by decide) ?_
      rintro (hx | ⟨hx, hy⟩)
      · exact hlt (.inl hx)
      · rcases hy.lt_or_eq with hy | hy
        · exact hlt (.inr ⟨hx, hy⟩)
        · exact hne ⟨hx, hy⟩

theorem yThenX_eq (p q : Point) : yThenX p q = xThenY p.swap q.swap := by
  simp only [yThenX, xThenY, Prod.fst_swap, Prod.snd_swap, and_comm]

/-- By rows is by columns with the coordinates swapped. -/
theorem sort_yThenX (points : Fin n → Point) : sort points yThenX = sort (Prod.swap ∘ points) xThenY := by
  rw [sort, sort]
  congr 1
  funext a b
  rw [yThenX_eq]
  rfl

/-- What a corner is sorted by: its coordinates, and then its number. -/
def place (points : Fin n → Point) (a : Fin n) : (ℚ ×ₗ ℚ) ×ₗ Fin n := toLex (toLex (points a), a)

theorem place_lt {a b : Fin n} :
    place points a < place points b ↔ toLex (points a) < toLex (points b) ∨ points a = points b ∧ a < b := by
  rw [place, place, Prod.Lex.toLex_lt_toLex]
  rfl

theorem place_lt_of_eq {a b : Fin n} (h : points a = points b) : place points a < place points b ↔ a < b := by
  rw [place_lt, h]
  simp

theorem sort_perm (points : Fin n → Point) (compare : Point → Point → Int) :
    (sort points compare).Perm (List.finRange n) := List.perm_insertionSort _ _

theorem sort_pairwise (points : Fin n → Point) :
    (sort points xThenY).Pairwise fun a b => place points a < place points b := by
  have hsorted := sortedStable_insertionSort (r := fun a b => xThenY (points a) (points b) ≤ 0) (S := (· < ·))
    (by
      intro a b
      rw [xThenY_le, xThenY_le]
      exact le_total _ _)
    (by
      intro a b c hab hbc
      rw [xThenY_le] at hab hbc ⊢
      exact le_trans hab hbc)
    (List.pairwise_lt_finRange n)
  apply hsorted.imp
  intro a b hab
  dsimp only at hab
  rw [xThenY_le, xThenY_le] at hab
  rw [place_lt]
  rcases hab.1.lt_or_eq with hlt | heq
  · exact .inl hlt
  · exact .inr ⟨toLex.injective heq, hab.2 heq.ge⟩

/-- Mates in a column (or, with the coordinates swapped, in a row). -/
structure Mates (points : Fin n → Point) (M : Matching (Fin n)) (edges : Edges n) : Prop where
  lookup : ∀ a, edges.lookup a = some (M.mate a)
  same : ∀ a, (points (M.mate a)).1 = (points a).1
  next : ∀ a c, place points a < place points (M.mate a) → place points a < place points c →
    c = M.mate a ∨ place points (M.mate a) < place points c

theorem exists_mates (points : Fin n → Point)
    (heven : ∀ c, Even ((List.finRange n).countP fun a => (points a).1 = c)) :
    ∃ M, Mates points M (edgesFrom (fun a => (points a).1) n (sort points xThenY)) ∧
      (edgesFrom (fun a => (points a).1) n (sort points xThenY)).map Prod.fst = sort points xThenY := by
  have hperm := sort_perm points xThenY
  have hall : ∀ a, a ∈ sort points xThenY := fun a => hperm.mem_iff.mpr (List.mem_finRange a)
  have hcount : ∀ c, Even ((sort points xThenY).countP fun a => (points a).1 = c) := by
    intro c
    rw [hperm.countP_eq]
    exact heven c
  have hkeys : (sort points xThenY).Pairwise fun a b => (points a).1 ≤ (points b).1 := by
    apply (sort_pairwise points).imp
    intro a b hab
    rcases place_lt.mp hab with hlt | ⟨heq, -⟩
    · rcases Prod.Lex.toLex_lt_toLex.mp hlt with hlt | ⟨heq, -⟩
      · exact hlt.le
      · exact heq.le
    · rw [heq]
  have hlength : Even (sort points xThenY).length := even_length_of_keys hkeys hcount
  rw [edgesFrom_eq _ (by rw [hperm.length_eq, List.length_finRange])]
  obtain ⟨M, hM⟩ := Matching.exists_of_list (hperm.nodup_iff.mpr (List.nodup_finRange n)) hlength hall
  refine ⟨M, ⟨fun a => (hM a).2, ?_, ?_⟩, map_fst_paired hlength⟩
  · intro a
    exact (key_of_mem_paired hkeys hcount (hM a).1).symm
  · intro a c hmate hc
    exact next_of_mem_paired (fun _ _ => lt_asymm) (sort_pairwise points) (hM a).1 hmate (hall c) hc

/-- A corner that has another at its place behind it is mated with one there. -/
theorem Mates.at_place {M : Matching (Fin n)} {edges : Edges n} (h : Mates points M edges) {start a : Fin n}
    (hmate : place points start < place points (M.mate start)) (hsame : points a = points start) (ha : start < a) :
    points (M.mate start) = points start := by
  have hlt : place points start < place points a := (place_lt_of_eq hsame.symm).mpr ha
  have hle : toLex (points (M.mate start)) ≤ toLex (points start) := by
    rcases h.next start a hmate hlt with heq | hnext
    · rw [← heq, hsame]
    · rcases place_lt.mp hnext with hnext | ⟨hnext, -⟩
      · rw [← hsame]
        exact hnext.le
      · rw [hnext, hsame]
  rcases place_lt.mp hmate with hgt | ⟨heq, -⟩
  · exact absurd hle (not_le_of_gt hgt)
  · exact heq.symm

/-- Coordinates that `equals` does not tell apart are the same. -/
def Separated (points : Fin n → Point) : Prop :=
  ∀ a b, equals (points a) (points b) = true → points a = points b

/-- **The first corner that is left** in the rows is mated with the same corner both ways, if any other that is
left is at its place. -/
theorem mate_eq_mate {H V : Matching (Fin n)} {edgesH edgesV : Edges n} (hV : Mates points V edgesV)
    (hH : Mates (Prod.swap ∘ points) H edgesH) {start a : Fin n}
    (hfirstH : place (Prod.swap ∘ points) start < place (Prod.swap ∘ points) (H.mate start))
    (hfirstV : place (Prod.swap ∘ points) start < place (Prod.swap ∘ points) (V.mate start))
    (hfirst : place (Prod.swap ∘ points) start < place (Prod.swap ∘ points) a) (hsame : points a = points start) :
    H.mate start = V.mate start := by
  have hswap : ∀ b c, (Prod.swap ∘ points) b = (Prod.swap ∘ points) c ↔ points b = points c :=
    fun b c => Prod.swap_injective.eq_iff
  have ha : start < a := (place_lt_of_eq ((hswap _ _).mpr hsame.symm)).mp hfirst
  have hmateH : points (H.mate start) = points start :=
    (hswap _ _).mp (hH.at_place hfirstH ((hswap _ _).mpr hsame) ha)
  have hcolumn : place points start < place points (V.mate start) := by
    have hx := hV.same start
    rcases place_lt.mp hfirstV with hlt | ⟨heq, hindex⟩
    · rcases Prod.Lex.toLex_lt_toLex.mp hlt with hy | ⟨-, hx'⟩
      · exact place_lt.mpr (.inl (Prod.Lex.toLex_lt_toLex.mpr (.inr ⟨hx.symm, hy⟩)))
      · exact absurd hx (ne_of_gt hx')
    · exact place_lt.mpr (.inr ⟨(hswap _ _).mp heq, hindex⟩)
  have hmateV : points (V.mate start) = points start := hV.at_place hcolumn hsame ha
  have hindexH : start < H.mate start := (place_lt_of_eq ((hswap _ _).mpr hmateH.symm)).mp hfirstH
  rcases hH.next start (V.mate start) hfirstH hfirstV with heq | hHV
  · exact heq.symm
  · rcases hV.next start (H.mate start) hcolumn ((place_lt_of_eq hmateH.symm).mpr hindexH) with heq | hVH
    · exact heq
    · have hlt := (place_lt_of_eq ((hswap _ _).mpr (hmateH.trans hmateV.symm))).mp hHV
      have hgt := (place_lt_of_eq (hmateV.trans hmateH.symm)).mp hVH
      exact absurd hgt (lt_asymm hlt)

/-- **The corners are connected** in rows and in columns. -/
theorem exists_connected (points : Fin n → Point) (hseparated : Separated points)
    (hx : ∀ c, Even ((List.finRange n).countP fun a => (points a).1 = c))
    (hy : ∀ c, Even ((List.finRange n).countP fun a => (points a).2 = c)) :
    ∃ H V, Connected points H V (edgesFrom (fun a => (points a).2) n (sort points yThenX))
        (edgesFrom (fun a => (points a).1) n (sort points xThenY)) ∧
      (∀ a, (points (H.mate a)).2 = (points a).2) ∧ ∀ a, (points (V.mate a)).1 = (points a).1 := by
  obtain ⟨V, hV, -⟩ := exists_mates points hx
  obtain ⟨H, hH, hkeys⟩ := exists_mates (Prod.swap ∘ points) hy
  rw [sort_yThenX]
  refine ⟨H, V, ⟨?_, ?_, hH.lookup, hV.lookup, ?_⟩, hH.same, hV.same⟩
  · show (List.map Prod.fst (edgesFrom (fun a => ((Prod.swap ∘ points) a).1) n _)).Nodup
    rw [hkeys]
    exact (sort_perm _ _).nodup_iff.mpr (List.nodup_finRange n)
  · intro a
    show a ∈ List.map Prod.fst (edgesFrom (fun a => ((Prod.swap ∘ points) a).1) n _)
    rw [hkeys]
    exact (sort_perm _ _).mem_iff.mpr (List.mem_finRange a)
  · intro removed hremoved e hhead
    have hmates : ∀ M : Matching (Fin n), (∀ a ∈ removed, M.mate a ∈ removed) →
        ∀ a, a ∉ removed → M.mate a ∉ removed := by
      intro M hM a ha hmate
      have hback := hM _ hmate
      rw [M.mate_mate] at hback
      exact ha hback
    have hstayH := hmates H fun a ha => (hremoved a ha).1
    have hstayV := hmates V fun a ha => (hremoved a ha).2
    -- the rows without the corners that are removed
    have hleft : ((sort (Prod.swap ∘ points) xThenY).filter fun a => a ∉ removed).head? = some e.1 := by
      rw [← hkeys, List.filter_map, List.head?_map]
      exact congrArg (Option.map Prod.fst) hhead
    obtain ⟨rest, hrest⟩ := List.head?_eq_some_iff.mp hleft
    have hfirst : ∀ a, a ∉ removed → a ≠ e.1 →
        place (Prod.swap ∘ points) e.1 < place (Prod.swap ∘ points) a := by
      intro a ha hne
      have hsorted := (sort_pairwise (Prod.swap ∘ points)).filter fun a => decide (a ∉ removed)
      have hmem : a ∈ (sort (Prod.swap ∘ points) xThenY).filter fun a => a ∉ removed :=
        List.mem_filter.mpr ⟨(sort_perm _ _).mem_iff.mpr (List.mem_finRange a), decide_eq_true ha⟩
      rw [hrest] at hsorted hmem
      exact List.rel_of_pairwise_cons hsorted ((List.mem_cons.mp hmem).resolve_left hne)
    have hstart : e.1 ∉ removed := by
      have hmem : e.1 ∈ (sort (Prod.swap ∘ points) xThenY).filter fun a => a ∉ removed := by
        rw [hrest]
        exact List.mem_cons_self
      exact of_decide_eq_true (List.mem_filter.mp hmem).2
    refine ⟨hstart, hstayH, hstayV, ?_⟩
    intro a ha hequals
    by_cases hne : a = e.1
    · exact .inl hne
    · exact .inr (mate_eq_mate hV hH (hfirst _ (hstayH _ hstart) (H.mate_ne _))
        (hfirst _ (hstayV _ hstart) (V.mate_ne _)) (hfirst a ha hne) (hseparated _ _ hequals))

end

/-! ## Gluing -/

/-- What is near a coordinate is moved there. -/
theorem monotone_near (a : ℚ) : Monotone fun x : ℚ => if |a - x| < eps then a else x := by
  intro x y hxy
  dsimp only
  have heps : (0 : ℚ) < eps := by norm_num [eps]
  by_cases hx : |a - x| < eps
  · by_cases hy : |a - y| < eps
    · rw [if_pos hx, if_pos hy]
    · rw [if_pos hx, if_neg hy]
      by_contra hya
      rw [abs_lt] at hx
      exact hy (abs_lt.mpr ⟨by linarith, by linarith⟩)
  · by_cases hy : |a - y| < eps
    · rw [if_neg hx, if_pos hy]
      by_contra hax
      rw [abs_lt] at hy
      exact hx (abs_lt.mpr ⟨by linarith, by linarith⟩)
    · rw [if_neg hx, if_neg hy]
      exact hxy

/-- Something holds of all rectangles behind the gluing if moving corners keeps it. -/
theorem glue_induction {P : List Point → Prop}
    (hstep : ∀ ri rj p, P ri → P rj → p ∈ ri → P (rj.map (gluePoint p))) {rectangles : List (List Point)}
    (h : ∀ r ∈ rectangles, P r) : ∀ r ∈ glue rectangles, P r := by
  have hrectangle : ∀ ri rj, P ri → P rj → P (glueRectangle ri rj) := by
    intro ri rj hri hrj
    suffices hsuffix : ∀ l : List Point, (∀ p ∈ l, p ∈ ri) → ∀ rj, P rj →
        P (l.foldl (fun rj p => rj.map (gluePoint p)) rj) from hsuffix ri (fun _ hp => hp) rj hrj
    intro l
    induction l with
    | nil => exact fun _ rj hrj => hrj
    | cons p l ih =>
      intro hl rj hrj
      rw [List.foldl_cons]
      exact ih (fun p hp => hl p (List.mem_cons_of_mem _ hp)) _ (hstep ri rj p hri hrj (hl p List.mem_cons_self))
  suffices hloop : ∀ fuel, ∀ rectangles : List (List Point), (∀ r ∈ rectangles, P r) →
      ∀ r ∈ glueLoop fuel rectangles, P r from hloop _ rectangles h
  intro fuel
  induction fuel with
  | zero => exact fun rectangles h => h
  | succ fuel ih =>
    intro rectangles h
    cases rectangles with
    | nil => exact h
    | cons ri rectangles =>
      have hri := h ri List.mem_cons_self
      rw [glueLoop, List.forall_mem_cons]
      refine ⟨hri, ih _ ?_⟩
      rw [List.forall_mem_map]
      exact fun rj hrj => hrectangle ri rj hri (h rj (List.mem_cons_of_mem _ hrj))

/-- **Glued rectangles are rectangles**. -/
theorem isRectangle_glue {rectangles : List (List Point)} (h : ∀ r ∈ rectangles, IsRectangle r) :
    ∀ r ∈ glue rectangles, IsRectangle r :=
  glue_induction (fun _ _ p _ hrj _ => hrj.map (monotone_near p.1) (monotone_near p.2)) h

/-! ## Outlines -/

theorem even_countP_flatten {P : Point → Bool} {rectangles : List (List Point)}
    (h : ∀ r ∈ rectangles, Even (r.countP P)) : Even (rectangles.flatten.countP P) := by
  induction rectangles with
  | nil => exact Even.zero
  | cons r rectangles ih =>
    rw [List.forall_mem_cons] at h
    rw [List.flatten_cons, List.countP_append]
    exact h.1.add (ih h.2)

theorem sum_mod_two {α : Type} {f g : α → Nat} {l : List α} (h : ∀ a ∈ l, f a % 2 = g a % 2) :
    (l.map f).sum % 2 = (l.map g).sum % 2 := by
  rw [List.sum_nat_mod, List.sum_nat_mod (l.map g), List.map_map, List.map_map]
  congr 2
  exact List.map_congr_left h

theorem sum_indicator {α : Type} (P : α → Bool) (l : List α) :
    (l.map fun a => if P a then 1 else 0).sum = l.countP P := by
  induction l with
  | nil => rfl
  | cons a l ih => rw [List.map_cons, List.sum_cons, List.countP_cons, ih, Nat.add_comm]

theorem countP_finRange (corners : List Point) (P : Point → Bool) :
    (List.finRange corners.length).countP (fun a => P (corners.get a)) = corners.countP P := by
  conv_rhs => rw [← List.map_get_finRange corners, List.countP_map]
  rfl

section
variable {n : Nat} {points : Fin n → Point} {H V : Matching (Fin n)} {p : List (Fin n)}

/-- The polygon of a walk: its points, and the first again. -/
theorem Follows.polygonOf_eq (points : Fin n → Point) (h : Follows H V p) : ∃ a l, p = a :: l ∧
    polygonOf points id p = p.map points ++ [points a] := by
  cases p with
  | nil => exact h.elim
  | cons a l =>
    refine ⟨a, l, rfl, ?_⟩
    rw [polygonOf, List.map_append]
    rfl

theorem Follows.closed (h : Follows H V p) : Polygon.Closed (polygonOf points id p) := by
  obtain ⟨a, l, rfl, heq⟩ := h.polygonOf_eq points
  rw [heq, Polygon.Closed, List.getLast?_concat]
  rfl

theorem Follows.orthogonal (h : Follows H V p) (hH : ∀ a, (points (H.mate a)).2 = (points a).2)
    (hV : ∀ a, (points (V.mate a)).1 = (points a).1) : Orthogonal (polygonOf points id p) := by
  apply Alternating.map _ _ h
  · rintro a b rfl
    exact (hV a).symm
  · rintro a b rfl
    exact (hH a).symm

theorem Follows.dropLast (h : Follows H V p) : (polygonOf points id p).dropLast = p.map points := by
  obtain ⟨a, l, rfl, heq⟩ := h.polygonOf_eq points
  rw [heq, List.dropLast_concat]

end

/-- How often a ray from the point crosses an edge of a polygon. -/
def crossed (q : Point) (polygons : List (List Point)) : Nat := (polygons.map (crossings q)).sum

/-- What an outline is for. Sides at which rectangles meet are no edges; each point there counts for the
rectangles on one side of it, which may be any. -/
structure Outlined (rectangles polygons : List (List Point)) : Prop where
  rectangle : ∀ r ∈ glue rectangles, IsRectangle r
  closed : ∀ polygon ∈ polygons, Polygon.Closed polygon
  orthogonal : ∀ polygon ∈ polygons, Orthogonal polygon
  inside : ∀ q, (∀ polygon ∈ polygons, OffEdges q polygon) → ∀ atX atY,
    crossed q polygons % 2 = (glue rectangles).countP (HalfOpen atX atY q ·) % 2
  offSides : ∀ q, (∀ polygon ∈ polygons, OffEdges q polygon) → (∀ r ∈ glue rectangles, ¬ OnSide q r) →
    crossed q polygons % 2 = (glue rectangles).countP (Covers q ·) % 2
  union : (glue rectangles).Pairwise InteriorDisjoint → ∀ q, (∀ polygon ∈ polygons, OffEdges q polygon) →
    (crossed q polygons % 2 = 1 ↔ ∃ r ∈ glue rectangles, (∃ p, Inside p r) ∧ Covers q r)

/-- The crossings of all polygons, by the corners of the rectangles. -/
theorem crossed_mod_two {rectangles : List (List Point)} (hrect : ∀ r ∈ rectangles, IsRectangle r) {n : Nat}
    {points : Fin n → Point} {ps : List (List (Fin n))} (hperm : (ps.flatten.map points).Perm rectangles.flatten)
    {q : Point} {atX atY : Bool}
    (hps : ∀ p ∈ ps, crossings q (polygonOf points id p) % 2 = (p.map points).countP (LowerLeft atX atY q ·) % 2) :
    crossed q (ps.map (polygonOf points id)) % 2 = rectangles.countP (HalfOpen atX atY q ·) % 2 := by
  calc crossed q (ps.map (polygonOf points id)) % 2
      = (ps.map fun p => (p.map points).countP (LowerLeft atX atY q ·)).sum % 2 := by
        rw [crossed, List.map_map]
        exact sum_mod_two hps
    _ = (ps.flatten.map points).countP (LowerLeft atX atY q ·) % 2 := by
        rw [List.map_flatten, List.countP_flatten, List.map_map]
        rfl
    _ = (rectangles.map (List.countP (LowerLeft atX atY q ·))).sum % 2 := by
        rw [hperm.countP_eq, List.countP_flatten]
    _ = (rectangles.map fun r => if decide (HalfOpen atX atY q r) then 1 else 0).sum % 2 := by
        apply sum_mod_two
        intro r hr
        rw [countP_lowerLeft (hrect r hr)]
        simp only [decide_eq_true_eq]
        split <;> rfl
    _ = rectangles.countP (HalfOpen atX atY q ·) % 2 := by
        rw [sum_indicator]

/-- **Outlines of selections**: where `equals` tells the corners apart, no edge is missing on a walk, and the
polygons are around the rectangles. -/
theorem rectanglesToPointSet_outlined {rectangles : List (List Point)} (hrect : ∀ r ∈ rectangles, IsRectangle r)
    (hequals : ∀ p ∈ (glue rectangles).flatten, ∀ q ∈ (glue rectangles).flatten, equals p q = true → p = q) :
    ∃ polygons, rectanglesToPointSet rectangles id = some polygons ∧ Outlined rectangles polygons := by
  have hglued := isRectangle_glue hrect
  have heven := fun P => even_countP_flatten fun r hr => ((hglued r hr).even_countP P).1
  have heven' := fun P => even_countP_flatten fun r hr => ((hglued r hr).even_countP P).2
  obtain ⟨H, V, hconnected, hH, hV⟩ := exists_connected (glue rectangles).flatten.get
    (fun a b => hequals _ (List.get_mem _ a) _ (List.get_mem _ b))
    (fun c => by
      rw [countP_finRange _ fun a => a.1 = c]
      exact heven fun x => x = c)
    (fun c => by
      rw [countP_finRange _ fun a => a.2 = c]
      exact heven' fun y => y = c)
  have hkeep : ∀ edges : Edges (glue rectangles).flatten.length,
      (edges.filter fun e => e.1 ∉ ([] : List (Fin _))) = edges := by
    intro edges
    simp
  have hfuel := List.Nodup.length_le_card hconnected.nodup
  rw [List.length_map, Fintype.card_fin, ← hkeep (edgesFrom _ _ _), ← Nat.lt_succ_iff] at hfuel
  obtain ⟨ps, hps, hflatten, hfollows⟩ := polygonsFrom_spec hconnected (List.forall_mem_nil _) hfuel
  rw [hkeep, hkeep] at hps
  -- each corner of the rectangles is in one polygon
  have hperm : (ps.flatten.map (glue rectangles).flatten.get).Perm (glue rectangles).flatten := by
    have hall : ps.flatten.Perm (List.finRange (glue rectangles).flatten.length) := by
      refine hflatten.trans ?_
      rw [List.perm_ext_iff_of_nodup (hconnected.nodup.filter _) (List.nodup_finRange _)]
      intro a
      exact iff_of_true (List.mem_filter.mpr ⟨hconnected.all a, decide_eq_true List.not_mem_nil⟩)
        (List.mem_finRange a)
    have hmap := hall.map (glue rectangles).flatten.get
    rwa [List.map_get_finRange] at hmap
  have hinside : ∀ q, (∀ polygon ∈ ps.map (polygonOf (glue rectangles).flatten.get id), OffEdges q polygon) →
      ∀ atX atY, crossed q (ps.map (polygonOf (glue rectangles).flatten.get id)) % 2 =
        (glue rectangles).countP (HalfOpen atX atY q ·) % 2 := by
    intro q hoff atX atY
    rw [List.forall_mem_map] at hoff
    apply crossed_mod_two hglued hperm
    intro p hp
    rw [Polygon.lowerLeft_mod_two ((hfollows p hp).orthogonal hH hV) (hfollows p hp).closed (hoff p hp) atX atY,
      (hfollows p hp).dropLast]
  refine ⟨ps.map (polygonOf (glue rectangles).flatten.get id), ?_, hglued, ?_, ?_, hinside, ?_, ?_⟩
  · rw [rectanglesToPointSet, hps]
    rfl
  · rw [List.forall_mem_map]
    exact fun p hp => (hfollows p hp).closed
  · rw [List.forall_mem_map]
    exact fun p hp => (hfollows p hp).orthogonal hH hV
  · intro q hoff hsides
    rw [hinside q hoff false false]
    congr 1
    apply List.countP_congr
    intro r hr
    rw [decide_eq_true_eq, decide_eq_true_eq]
    exact Polygon.halfOpen_iff_covers (hglued r hr) (hsides r hr) false false
  · intro hdisjoint q hoff
    exact Polygon.odd_halfOpen_iff hglued hdisjoint fun atX atY => (hinside q hoff atX atY).symm

/-- Two rectangles side by side. -/
def adjacent : List (List Point) :=
  [[(0, 0), (100, 0), (0, 100), (100, 100)], [(100, 0), (200, 0), (100, 100), (200, 100)]]

theorem rectanglesToPointSet_outlined_adjacent :
    ∃ polygons, rectanglesToPointSet adjacent id = some polygons ∧ Outlined adjacent polygons := by
  apply rectanglesToPointSet_outlined
  · intro r hr
    rcases List.mem_cons.mp hr with rfl | hr
    · exact ⟨0, 100, 0, 100, ⟨by norm_num, by norm_num⟩, .refl _⟩
    · rw [List.mem_singleton.mp hr]
      exact ⟨100, 200, 0, 100, ⟨by norm_num, by norm_num⟩, .refl _⟩
  · decide +kernel

/-- A rectangle with sides below `Number.EPSILON`. -/
def tiny : List (List Point) :=
  [[(0, 0), (1 / 2 ^ 53, 0), (0, 1 / 2 ^ 53), (1 / 2 ^ 53, 1 / 2 ^ 53)]]

/-- The walk on the tiny rectangle ends at the corner next to the first, and at the next one again. A point on the
side that two rectangles share is in both, and inside. -/
theorem not_rectanglesToPointSet_outlined :
    (¬ ∀ rectangles, (∀ r ∈ rectangles, IsRectangle r) →
      ∃ polygons, rectanglesToPointSet rectangles id = some polygons ∧ Outlined rectangles polygons) ∧
    ∃ polygons, rectanglesToPointSet adjacent id = some polygons ∧
      (∀ polygon ∈ polygons, OffEdges (100, 50) polygon) ∧ crossed (100, 50) polygons % 2 = 1 ∧
      (glue adjacent).countP (Covers (100, 50) ·) % 2 = 0 := by
  constructor
  · intro h
    obtain ⟨polygons, hpolygons, houtlined⟩ := h tiny (by
      intro r hr
      rw [List.mem_singleton.mp hr]
      exact ⟨0, 1 / 2 ^ 53, 0, 1 / 2 ^ 53, ⟨by norm_num, by norm_num⟩, .refl _⟩)
    have hwalks : rectanglesToPointSet tiny id =
        some [[(0, 0), (0, 1 / 2 ^ 53), (0, 0)], [(1 / 2 ^ 53, 0), (1 / 2 ^ 53, 1 / 2 ^ 53), (1 / 2 ^ 53, 0)]] := by
      decide +kernel
    rw [hwalks, Option.some.injEq] at hpolygons
    have horthogonal := houtlined.orthogonal [(0, 0), (0, 1 / 2 ^ 53), (0, 0)] (by rw [← hpolygons]; simp)
    have hhorizontal : (1 / 2 ^ 53 : ℚ) = 0 := horthogonal.2.1
    norm_num at hhorizontal
  · refine ⟨[[(0, 0), (0, 100), (100, 100), (100, 100), (200, 100), (200, 0), (100, 0), (100, 0), (0, 0)]],
      ?_, ?_, ?_, ?_⟩
    · decide +kernel
    · intro polygon hpolygon
      rw [List.mem_singleton.mp hpolygon]
      simp only [OffEdges, Polygon.edges, Polygon.OnEdge]
      decide +kernel
    · decide +kernel
    · decide +kernel

end Oxool.Browser.CPolyUtil
