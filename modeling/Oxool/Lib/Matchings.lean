import Mathlib.Algebra.Ring.Parity
import Mathlib.Data.List.Nodup
import Mathlib.Data.List.Perm.Basic
import Mathlib.Data.List.Sort
import Mathlib.Logic.Function.Basic
import Oxool.Lib.Assoc

/-!
# Neighbours two by two

A list is taken two by two: its elements are mates then. `paired` lists every element with its mate, so that
it is a map from the one to the other. Without duplicates, and with no element left over, that is a
`Matching`: an involution that moves every element.

In a sorted list no element lies between two mates (`next_of_mem_paired`). If the elements are sorted by a key
that each of its values has an even number of, mates have the same key (`key_of_mem_paired`).
-/

set_option autoImplicit false

namespace Oxool

variable {α β : Type}

/-! ## Stable sorting -/

section
variable {r S : α → α → Prop} [DecidableRel r]

/-- A list sorted by `r`, in which elements that `r` does not tell apart are ordered by `S`. -/
def SortedStable (r S : α → α → Prop) (l : List α) : Prop := l.Pairwise fun a b => r a b ∧ (r b a → S a b)

theorem SortedStable.orderedInsert (htotal : ∀ a b, r a b ∨ r b a) (htrans : ∀ a b c, r a b → r b c → r a c)
    {a : α} {l : List α} (hl : SortedStable r S l) (ha : ∀ b ∈ l, S a b) :
    SortedStable r S (l.orderedInsert r a) := by
  induction l with
  | nil => exact List.pairwise_singleton _ a
  | cons b l ih =>
    obtain ⟨hb, hrest⟩ := List.pairwise_cons.mp hl
    rw [List.orderedInsert_cons]
    split
    · next hab =>
      refine List.pairwise_cons.mpr ⟨fun c hc => ?_, hl⟩
      rcases List.mem_cons.mp hc with rfl | hcl
      · exact ⟨hab, fun _ => ha c hc⟩
      · exact ⟨htrans _ _ _ hab (hb c hcl).1, fun _ => ha c hc⟩
    · next hab =>
      refine List.pairwise_cons.mpr ⟨fun c hc => ?_, ih hrest fun c hc => ha c (List.mem_cons_of_mem _ hc)⟩
      rcases (List.mem_orderedInsert r).mp hc with rfl | hcl
      · exact ⟨(htotal _ _).resolve_left hab, fun h => absurd h hab⟩
      · exact hb c hcl

/-- **Insertion keeps the order** of elements that need not be moved. -/
theorem sortedStable_insertionSort (htotal : ∀ a b, r a b ∨ r b a) (htrans : ∀ a b c, r a b → r b c → r a c)
    {l : List α} (hl : l.Pairwise S) : SortedStable r S (l.insertionSort r) := by
  induction l with
  | nil => exact .nil
  | cons a l ih =>
    obtain ⟨ha, hrest⟩ := List.pairwise_cons.mp hl
    rw [List.insertionSort_cons]
    exact (ih hrest).orderedInsert htotal htrans fun b hb => ha b ((List.mem_insertionSort r).mp hb)

end

/-! ## Maps -/

section
variable [DecidableEq α]

/-- Elements are taken out of a map, one after the other. -/
def deleteAll (es : List (α × β)) (keys : List α) : List (α × β) :=
  keys.foldl (fun es a => es.filter fun e => e.1 ≠ a) es

theorem deleteAll_eq (es : List (α × β)) (keys : List α) :
    deleteAll es keys = es.filter fun e => e.1 ∉ keys := by
  induction keys generalizing es with
  | nil => simp [deleteAll]
  | cons a keys ih =>
    show deleteAll (es.filter fun e => e.1 ≠ a) keys = _
    rw [ih, List.filter_filter]
    apply List.filter_congr
    intro e _
    simp only [List.mem_cons, not_or, Bool.decide_and]
    exact Bool.and_comm _ _

end

/-! ## Mates -/

/-- Each element with its mate. -/
def paired : List α → List (α × α)
  | a :: b :: rest => (a, b) :: (b, a) :: paired rest
  | _ => []

theorem map_fst_paired : ∀ {l : List α}, Even l.length → (paired l).map Prod.fst = l
  | [], _ => rfl
  | [_], h => absurd h Nat.not_even_one
  | a :: b :: rest, h => by
    have hrest : Even rest.length := by
      rw [List.length_cons, List.length_cons, Nat.add_assoc] at h
      exact (Nat.even_add.mp h).mpr even_two
    rw [paired, List.map_cons, List.map_cons, map_fst_paired hrest]

/-- Mates are pairs both ways. -/
theorem swap_mem_paired : ∀ {l : List α} {a b : α}, (a, b) ∈ paired l → (b, a) ∈ paired l
  | [], _, _, h => by cases h
  | [_], _, _, h => by cases h
  | c :: d :: rest, a, b, h => by
    rw [paired, List.mem_cons, List.mem_cons] at h ⊢
    rcases h with h | h | h
    · cases h
      exact .inr (.inl rfl)
    · cases h
      exact .inl rfl
    · exact .inr (.inr (swap_mem_paired h))

theorem mem_of_mem_paired : ∀ {l : List α} {a b : α}, (a, b) ∈ paired l → a ∈ l ∧ b ∈ l
  | [], _, _, h => by cases h
  | [_], _, _, h => by cases h
  | c :: d :: rest, a, b, h => by
    rw [paired, List.mem_cons, List.mem_cons] at h
    rcases h with h | h | h
    · cases h
      exact ⟨List.mem_cons_self, List.mem_cons_of_mem _ List.mem_cons_self⟩
    · cases h
      exact ⟨List.mem_cons_of_mem _ List.mem_cons_self, List.mem_cons_self⟩
    · obtain ⟨ha, hb⟩ := mem_of_mem_paired h
      exact ⟨List.mem_cons_of_mem _ (List.mem_cons_of_mem _ ha), List.mem_cons_of_mem _ (List.mem_cons_of_mem _ hb)⟩

theorem ne_of_mem_paired : ∀ {l : List α} {a b : α}, l.Nodup → (a, b) ∈ paired l → a ≠ b
  | [], _, _, _, h => by cases h
  | [_], _, _, _, h => by cases h
  | c :: d :: rest, a, b, hnodup, h => by
    rw [List.nodup_cons, List.nodup_cons] at hnodup
    rw [paired, List.mem_cons, List.mem_cons] at h
    have hcd : c ≠ d := fun heq => hnodup.1 (heq ▸ List.mem_cons_self)
    rcases h with h | h | h
    · cases h
      exact hcd
    · cases h
      exact hcd.symm
    · exact ne_of_mem_paired hnodup.2.2 h

/-- **No element lies between mates** in a sorted list. -/
theorem next_of_mem_paired {lt : α → α → Prop} (hasymm : ∀ a b, lt a b → ¬ lt b a) :
    ∀ {l : List α} {a b c : α}, l.Pairwise lt → (a, b) ∈ paired l → lt a b → c ∈ l → lt a c → c = b ∨ lt b c
  | [], _, _, _, _, h, _, _, _ => by cases h
  | [_], _, _, _, _, h, _, _, _ => by cases h
  | d :: e :: rest, a, b, c, hsorted, h, hab, hc, hac => by
    rw [List.pairwise_cons, List.pairwise_cons] at hsorted
    obtain ⟨hd, he, hrest⟩ := hsorted
    rw [paired, List.mem_cons, List.mem_cons] at h
    rcases h with h | h | h
    · cases h
      rcases List.mem_cons.mp hc with rfl | hc
      · exact absurd hac fun h => hasymm _ _ h h
      · rcases List.mem_cons.mp hc with rfl | hc
        · exact .inl rfl
        · exact .inr (he c hc)
    · cases h
      exact absurd hab (hasymm _ _ (hd e List.mem_cons_self))
    · rcases List.mem_cons.mp hc with rfl | hc
      · exact absurd hac (hasymm _ _ (hd a (List.mem_cons_of_mem _ (mem_of_mem_paired h).1)))
      · rcases List.mem_cons.mp hc with rfl | hc
        · exact absurd hac (hasymm _ _ (he a (mem_of_mem_paired h).1))
        · exact next_of_mem_paired hasymm hrest h hab hc hac

section
variable {κ : Type} [LinearOrder κ] {key : α → κ}

/-- In a list that is sorted by a key, with an even number of each value of it, the first two have the same,
and so has the rest again. -/
theorem key_head {a b : α} {rest : List α} (hsorted : (a :: b :: rest).Pairwise (key · ≤ key ·))
    (heven : ∀ c, Even ((a :: b :: rest).countP (key · = c))) :
    key a = key b ∧ ∀ c, Even (rest.countP (key · = c)) := by
  rw [List.pairwise_cons, List.pairwise_cons] at hsorted
  obtain ⟨ha, hb, hrest⟩ := hsorted
  have hab : key a = key b := by
    by_contra hne
    have hlt : key a < key b := lt_of_le_of_ne (ha b List.mem_cons_self) hne
    have hnone : rest.countP (key · = key a) = 0 := by
      rw [List.countP_eq_zero]
      intro c hc
      rw [decide_eq_true_eq]
      exact fun heq => absurd (heq ▸ hb c hc) (not_le_of_gt hlt)
    have hcount := heven (key a)
    rw [List.countP_cons, List.countP_cons, hnone] at hcount
    simp [Ne.symm hne] at hcount
  refine ⟨hab, fun c => ?_⟩
  have hcount := heven c
  rw [List.countP_cons, List.countP_cons, hab] at hcount
  by_cases hc : key b = c
  · simp only [hc, decide_true, if_true] at hcount
    exact (Nat.even_add.mp (Nat.add_assoc _ 1 1 ▸ hcount)).mpr even_two
  · simpa [hc] using hcount

theorem even_length_of_keys : ∀ {l : List α}, l.Pairwise (key · ≤ key ·) →
    (∀ c, Even (l.countP (key · = c))) → Even l.length
  | [], _, _ => Even.zero
  | [a], _, heven => by
    have hcount := heven (key a)
    simp at hcount
  | a :: b :: rest, hsorted, heven => by
    rw [List.length_cons, List.length_cons]
    exact (even_length_of_keys (List.pairwise_cons.mp (List.pairwise_cons.mp hsorted).2).2
      (key_head hsorted heven).2).add even_two

/-- **Mates have the same key**. -/
theorem key_of_mem_paired : ∀ {l : List α} {a b : α}, l.Pairwise (key · ≤ key ·) →
    (∀ c, Even (l.countP (key · = c))) → (a, b) ∈ paired l → key a = key b
  | [], _, _, _, _, h => by cases h
  | [_], _, _, _, _, h => by cases h
  | c :: d :: rest, a, b, hsorted, heven, h => by
    obtain ⟨hcd, hrest⟩ := key_head hsorted heven
    rw [paired, List.mem_cons, List.mem_cons] at h
    rcases h with h | h | h
    · cases h
      exact hcd
    · cases h
      exact hcd.symm
    · exact key_of_mem_paired (List.pairwise_cons.mp (List.pairwise_cons.mp hsorted).2).2 hrest h

end

/-- Every element has a mate, which is another one, and has it for its mate. -/
structure Matching (α : Type) where
  mate : α → α
  mate_mate : ∀ a, mate (mate a) = a
  mate_ne : ∀ a, mate a ≠ a

namespace Matching

variable [DecidableEq α]

/-- **The mates in a list** that has every element once. -/
theorem exists_of_list {l : List α} (hnodup : l.Nodup) (heven : Even l.length) (hall : ∀ a, a ∈ l) :
    ∃ M : Matching α, ∀ a, (a, M.mate a) ∈ paired l ∧ (paired l).lookup a = some (M.mate a) := by
  have hkeys : (paired l).map Prod.fst = l := map_fst_paired heven
  have hpartner : ∀ a, ∃ b, (a, b) ∈ paired l := by
    intro a
    obtain ⟨e, he, rfl⟩ := List.mem_map.mp (hkeys ▸ hall a)
    exact ⟨e.2, he⟩
  choose mate hmate using hpartner
  have hkeysNodup : ((paired l).map Prod.fst).Nodup := by
    rw [hkeys]
    exact hnodup
  have hlookup : ∀ a, (paired l).lookup a = some (mate a) := fun a => Assoc.lookup_of_mem hkeysNodup (hmate a)
  refine ⟨⟨mate, ?_, fun a => (ne_of_mem_paired hnodup (hmate a)).symm⟩, fun a => ⟨hmate a, hlookup a⟩⟩
  intro a
  have hback := Assoc.lookup_of_mem hkeysNodup (swap_mem_paired (hmate a))
  rw [hlookup, Option.some.injEq] at hback
  exact hback

end Matching

end Oxool
