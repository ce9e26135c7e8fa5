import Mathlib.Algebra.BigOperators.Intervals
import Mathlib.Tactic.FieldSimp
import Mathlib.Tactic.Linarith
import Mathlib.Tactic.Positivity
import Oxool.Sheet.Geometry

/-!
# Sheet geometry answers what a sum over the rows would

`Geometry` is what a message of the core says of a dimension, with the conditions its lists keep.
The size of an element that can be seen is read off the three lists one element at a time
(`visibleAt`), and the position of an element is a sum over those before it (`startOf`). The browser
never does that: it merges the lists span by span, adds up spans, and searches.
-/

set_option autoImplicit false

namespace Oxool.Sheet

open Oxool.Http (Bytes ascii isDigit)
open Oxool.Protocol

/-! ## What a message says -/

/-- The last elements of spans that follow each other, from the element `lo` on up to `m`. -/
inductive Ends (m : Int) : Int → List Int → Prop
  | last {lo : Int} (hlo : lo ≤ m) : Ends m lo [m]
  | cons {lo e : Int} {es : List Int} (hlo : lo ≤ e) (hlt : e < m) (h : Ends m (e + 1) es) :
    Ends m lo (e :: es)

/-- The value of an element. -/
def valueAt : List SpanData → Int → Int
  | [], _ => 0
  | s :: spans, i => if i ≤ s.index then s.value else valueAt spans i

/-- The bit of an element. -/
def bitAt : Bool → List Int → Int → Bool
  | bit, [], _ => bit
  | bit, e :: es, i => if i ≤ e then bit else bitAt (!bit) es i

/-- The sizes and the hidden and the filtered elements of a dimension, up to the element `last`. -/
structure Geometry where
  sizes : List SpanData
  hidden : BoolSpanList
  filtered : BoolSpanList
  last : Int
  nonneg : ∀ s ∈ sizes, 0 ≤ s.value
  sizes_ends : Ends last 0 (sizes.map SpanData.index)
  hidden_ends : Ends last 0 hidden.spanlist
  filtered_ends : Ends last 0 filtered.spanlist

namespace Geometry

variable (g : Geometry)

/-- The size of an element as it is seen: nothing of it where it is hidden or filtered. -/
def visibleAt (i : Int) : Int :=
  if bitAt g.hidden.startBit g.hidden.spanlist i || bitAt g.filtered.startBit g.filtered.spanlist i then
    0
  else valueAt g.sizes i

/-- The pixels of an element. -/
def pixelsAt (twipsPerCorePixel : ℚ) (i : Int) : Int := ⌊(g.visibleAt i : ℚ) / twipsPerCorePixel⌋

end Geometry

/-- The sum over the elements before the `n`-th. -/
def sumBefore (f : Int → Int) (n : Int) : Int := ∑ j ∈ Finset.range n.toNat, f j

namespace Geometry

variable (g : Geometry)

/-- The position of an element, in any unit. -/
def startOf (twipsPerCorePixel : ℚ) : GeometryUnit → Int → Int
  | .printtwips, i => sumBefore g.visibleAt i
  | .corepixels, i => sumBefore (g.pixelsAt twipsPerCorePixel) i
  | .tiletwips, i => ⌊(sumBefore (g.pixelsAt twipsPerCorePixel) i : ℚ) * twipsPerCorePixel⌋

/-- The size of an element, in any unit. -/
def sizeOf (twipsPerCorePixel : ℚ) : GeometryUnit → Int → Int
  | .printtwips, i => g.visibleAt i
  | .corepixels, i => g.pixelsAt twipsPerCorePixel i
  | .tiletwips, i => ⌊(g.pixelsAt twipsPerCorePixel i : ℚ) * twipsPerCorePixel⌋

end Geometry

/-- Entries with a blank after each. -/
def blankEnded (entries : List Bytes) : Bytes := entries.flatMap (· ++ [blank])

/-- The sizes as the core writes them. -/
def encodeSpans (spans : List SpanData) : Bytes :=
  blankEnded (spans.map fun s => decimal s.value ++ colon :: decimal s.index)

/-- The bits as the core writes them. -/
def encodeBits (b : BoolSpanList) : Bytes :=
  decimal (if b.startBit then 1 else 0) ++ colon :: blankEnded (b.spanlist.map decimal)

/-! ## Reading the encodings -/

theorem notMem_decimal {b : UInt8} (hb : b ≠ 45) (hdigit : isDigit b = false) (n : Int) :
    b ∉ decimal n := by
  intro hmem
  rcases mem_decimal hmem with h | h
  · exact hb h
  · rw [hdigit] at h
    cases h

theorem blank_notMem_decimal (n : Int) : blank ∉ decimal n :=
  notMem_decimal (by decide) (by decide) n

theorem colon_notMem_decimal (n : Int) : colon ∉ decimal n :=
  notMem_decimal (by decide) (by decide) n

/-- **What is written is read**: no number starts with `0x`. -/
theorem parseInt_decimal (n : Int) : parseInt (decimal n) = some n := by
  have hsign := splitSign_decimal n []
  have hdigits := @takeWhile_toString n.natAbs [] (by simp)
  rw [List.append_nil] at hsign
  rw [List.append_nil] at hdigits
  have hx : ∀ x : UInt8, isDigit x = false → ∀ l : Bytes,
      (ascii (toString n.natAbs)).take 2 ≠ 48 :: x :: l := by
    intro x hxdigit l heq
    have hmem : x ∈ ascii (toString n.natAbs) := by
      apply List.mem_of_mem_take (i := 2)
      rw [heq]
      simp
    have := Http.isDigit_of_mem_toString hmem
    rw [hxdigit] at this
    cases this
  have hhex : ¬ ((ascii (toString n.natAbs)).take 2 = ascii "0x" ∨
      (ascii (toString n.natAbs)).take 2 = ascii "0X") := by
    rintro (h | h)
    · exact hx 120 (by decide) [] h
    · exact hx 88 (by decide) [] h
  have hvalue : signed (decide (n < 0)) n.natAbs = n := by
    rw [signed]
    split <;> rename_i h <;> simp only [decide_eq_true_eq] at h <;> omega
  rw [parseInt, hsign, List.append_nil]
  dsimp only
  rw [if_neg hhex, if_neg hhex, hdigits, digitsValue_toString, hvalue, if_neg (toString_ne_nil _)]

theorem splitOn_blankEnded {entries : List Bytes} (h : ∀ e ∈ entries, blank ∉ e) :
    (blankEnded entries).splitOn blank = entries ++ [[]] := by
  induction entries with
  | nil => rfl
  | cons e entries ih =>
    have hsplit : blankEnded (e :: entries) = e ++ blank :: blankEnded entries := by
      simp [blankEnded]
    rw [hsplit, List.splitOn_append_cons_self, List.splitOn_eq_singleton (h e List.mem_cons_self),
      ih fun e' he' => h e' (List.mem_cons_of_mem _ he')]
    rfl

theorem splitOn_pair (m n : Int) :
    (decimal m ++ colon :: decimal n).splitOn colon = [decimal m, decimal n] := by
  rw [List.splitOn_append_cons_self, List.splitOn_eq_singleton (colon_notMem_decimal m),
    List.splitOn_eq_singleton (colon_notMem_decimal n)]
  rfl

theorem parseSpan_encode (s : SpanData) :
    parseSpan (decimal s.value ++ colon :: decimal s.index) = some s := by
  rw [parseSpan, splitOn_pair]
  simp [parseInt_decimal]

theorem mapM_map_some {α β : Type} {f : β → Option α} {e : α → β} (h : ∀ a, f (e a) = some a)
    (l : List α) : (l.map e).mapM f = some l := by
  induction l with
  | nil => rfl
  | cons a l ih => simp [h a, ih]

theorem parseSpanList_encodeSpans {spans : List SpanData} (h : spans ≠ []) :
    parseSpanList (encodeSpans spans) = some spans := by
  have hsplit := @splitOn_blankEnded (spans.map fun s => decimal s.value ++ colon :: decimal s.index)
    (by
      intro e he
      obtain ⟨s, -, rfl⟩ := List.mem_map.mp he
      simp only [List.mem_append, List.mem_cons, not_or]
      exact ⟨blank_notMem_decimal _, by decide, blank_notMem_decimal _⟩)
  have hlength : 0 < spans.length := List.length_pos_iff.mpr h
  rw [parseSpanList, encodeSpans, hsplit, List.dropLast_concat, if_neg (by simp; omega), mapM_map_some parseSpan_encode]

theorem parseBoolSpanList_encodeBits {b : BoolSpanList} (h : b.spanlist ≠ []) :
    parseBoolSpanList (encodeBits b) = some b := by
  obtain ⟨startBit, spanlist⟩ := b
  cases spanlist with
  | nil => exact absurd rfl h
  | cons e es =>
    have hentries : encodeBits ⟨startBit, e :: es⟩ = blankEnded
        ((decimal (if startBit then 1 else 0) ++ colon :: decimal e) :: es.map decimal) := by
      simp [encodeBits, blankEnded]
    have hsplit := @splitOn_blankEnded
      ((decimal (if startBit then 1 else 0) ++ colon :: decimal e) :: es.map decimal)
      (by
        intro x hx
        rcases List.mem_cons.mp hx with rfl | hx
        · simp only [List.mem_append, List.mem_cons, not_or]
          exact ⟨blank_notMem_decimal _, by decide, blank_notMem_decimal _⟩
        · obtain ⟨n, -, rfl⟩ := List.mem_map.mp hx
          exact blank_notMem_decimal n)
    rw [parseBoolSpanList, hentries, hsplit, if_neg (by simp), List.dropLast_concat, List.cons_append, List.headD_cons, splitOn_pair,
      List.tail_cons]
    simp only [parseInt_decimal, mapM_map_some parseInt_decimal]
    cases startBit <;> rfl

/-! ## Merging spans -/

namespace Ends

variable {m lo : Int} {es : List Int}

theorem ne_nil (h : Ends m lo es) : es ≠ [] := by
  cases h <;> exact List.cons_ne_nil _ _

theorem le (h : Ends m lo es) : lo ≤ m := by
  cases h with
  | last hlo => exact hlo
  | cons hlo hlt _ => omega

theorem getLast? (h : Ends m lo es) : es.getLast? = some m := by
  induction h with
  | last _ => rfl
  | cons _ _ h ih => rw [List.getLast?_cons, ih]; rfl

theorem weaken {lo' : Int} (h : Ends m lo es) (hlo : lo' ≤ lo) : Ends m lo' es := by
  cases h with
  | last h => exact .last (hlo.trans h)
  | cons h hlt hes => exact .cons (hlo.trans h) hlt hes

/-- Up to the end of the first span the bit is the first one. -/
theorem bitAt_eq {bit : Bool} {i e : Int} (h : Ends m (e + 1) es) (hi : i ≤ e) :
    bitAt bit es i = bit := by
  cases h with
  | last hlo => rw [bitAt, if_pos (by omega)]
  | cons hlo _ _ => rw [bitAt, if_pos (by omega)]

theorem head {e : Int} (h : Ends m lo (e :: es)) : lo ≤ e ∧ e ≤ m := by
  cases h with
  | last hlo => exact ⟨hlo, Int.le_refl m⟩
  | cons hlo hlt _ => exact ⟨hlo, Int.le_of_lt hlt⟩

theorem tail {e : Int} (h : Ends m lo (e :: es)) (he : e < m) : Ends m (e + 1) es := by
  cases h with
  | last _ => omega
  | cons _ _ h => exact h

/-- The span that ends with the last element is the last one. -/
theorem eq_nil (h : Ends m lo (m :: es)) : es = [] := by
  cases h with
  | last _ => rfl
  | cons _ hlt _ => omega

/-- The list is the same from any element of its first span on. -/
theorem from_head {e lo' : Int} (h : Ends m lo (e :: es)) (hlo : lo' ≤ e) : Ends m lo' (e :: es) := by
  cases h with
  | last _ => exact .last hlo
  | cons _ hlt h => exact .cons hlo hlt h

end Ends

/-- A span is put out where the bit changes: what the list then says. -/
theorem emitBit_spec {m e lo : Int} (hlo : lo ≤ e) (he : e < m) (res next : Bool) {r : List Int}
    (hr : Ends m (e + 1) r) :
    Ends m lo (if res ≠ next ∨ m ≤ e then e :: r else r) ∧
      ∀ i, bitAt res (if res ≠ next ∨ m ≤ e then e :: r else r) i =
        if i ≤ e then res else bitAt next r i := by
  split
  · rename_i hcond
    have hnext : next = !res := by
      rcases hcond with hne | hle
      · cases res <;> cases next <;> simp_all
      · omega
    exact ⟨.cons hlo he hr, fun i => by rw [bitAt, hnext]⟩
  · rename_i hcond
    have hnext : res = next := by
      by_contra hne
      exact hcond (.inl hne)
    refine ⟨hr.weaken (by omega), fun i => ?_⟩
    split
    · rename_i hi
      exact hr.bitAt_eq hi
    · rw [hnext]

/-- A list in its first span. -/
theorem bitAt_before (bit : Bool) {e b : Int} (bs : List Int) (i : Int) (he : e ≤ b) :
    bitAt bit (b :: bs) i = if i ≤ e then bit else bitAt bit (b :: bs) i := by
  split
  · rw [bitAt, if_pos (by omega)]
  · rfl

/-- **The loop of `union`**, from the element `lo` on. -/
theorem unionLoop_spec {m : Int} (fuel : Nat) {this other : List Int} {lo : Int}
    (hthis : Ends m lo this) (hother : Ends m lo other) (hfuel : this.length + other.length ≤ fuel)
    (t o : Bool) :
    Ends m lo (unionLoop m fuel this other t o (t || o)) ∧
      ∀ i, i ≤ m → bitAt (t || o) (unionLoop m fuel this other t o (t || o)) i =
        (bitAt t this i || bitAt o other i) := by
  induction fuel generalizing this other lo t o with
  | zero =>
    have := List.length_pos_iff.mpr hthis.ne_nil
    omega
  | succ fuel ih =>
    cases this with
    | nil => exact absurd rfl hthis.ne_nil
    | cons a as =>
      cases other with
      | nil => exact absurd rfl hother.ne_nil
      | cons b bs =>
        obtain ⟨hloa, ham⟩ := hthis.head
        obtain ⟨hlob, hbm⟩ := hother.head
        rw [List.length_cons, List.length_cons] at hfuel
        -- one step: up to the end of the shorter span nothing changes, and from there on the rest counts
        have hstep : ∀ {e : Int} {this' other' : List Int} (t' o' : Bool), lo ≤ e → e < m →
            Ends m (e + 1) this' → Ends m (e + 1) other' → this'.length + other'.length ≤ fuel →
            (∀ i, bitAt t (a :: as) i = if i ≤ e then t else bitAt t' this' i) →
            (∀ i, bitAt o (b :: bs) i = if i ≤ e then o else bitAt o' other' i) →
            unionLoop m (fuel + 1) (a :: as) (b :: bs) t o (t || o) =
              (if (t || o) ≠ (t' || o') ∨ m ≤ e then
                e :: unionLoop m fuel this' other' t' o' (t' || o')
              else unionLoop m fuel this' other' t' o' (t || o)) →
            Ends m lo (unionLoop m (fuel + 1) (a :: as) (b :: bs) t o (t || o)) ∧
              ∀ i, i ≤ m → bitAt (t || o) (unionLoop m (fuel + 1) (a :: as) (b :: bs) t o (t || o)) i =
                (bitAt t (a :: as) i || bitAt o (b :: bs) i) := by
          intro e this' other' t' o' hlo he hthis' hother' hfuel' hbits hbits' hloop
          obtain ⟨hends, hrest⟩ := ih hthis' hother' hfuel' t' o'
          have hsame : (if (t || o) ≠ (t' || o') ∨ m ≤ e then
                e :: unionLoop m fuel this' other' t' o' (t' || o')
              else unionLoop m fuel this' other' t' o' (t || o)) =
              (if (t || o) ≠ (t' || o') ∨ m ≤ e then
                e :: unionLoop m fuel this' other' t' o' (t' || o')
              else unionLoop m fuel this' other' t' o' (t' || o')) := by
            split
            · rfl
            · rename_i hcond
              rw [not_or, not_not] at hcond
              rw [hcond.1]
          rw [hloop, hsame]
          obtain ⟨hends', hemit⟩ := emitBit_spec hlo he (t || o) (t' || o') hends
          refine ⟨hends', fun i hi => ?_⟩
          rw [hemit, hbits, hbits']
          split
          · rfl
          · exact hrest i hi
        rcases Int.lt_trichotomy a b with hab | rfl | hba
        · have hnot : ¬ b < a := by omega
          refine hstep (!t) o hloa (by omega) (hthis.tail (by omega)) (hother.from_head (by omega))
            (by rw [List.length_cons]; omega) (fun i => rfl)
            (fun i => bitAt_before o bs i (Int.le_of_lt hab)) ?_
          simp only [unionLoop, hab, hnot, if_true, if_false]
        · have hnot : ¬ a < a := by omega
          rcases Int.lt_or_eq_of_le ham with ham | rfl
          · refine hstep (!t) (!o) hloa ham (hthis.tail ham) (hother.tail ham) (by omega)
              (fun i => rfl) (fun i => rfl) ?_
            simp only [unionLoop, hnot, if_false]
          · -- the last element: the only span that is put out for certain
            obtain rfl := hthis.eq_nil
            obtain rfl := hother.eq_nil
            have hnil : unionLoop a fuel [] [] (!t) (!o) (!t || !o) = [] := by
              cases fuel <;> rfl
            have hloop : unionLoop a (fuel + 1) [a] [a] t o (t || o) = [a] := by
              simp only [unionLoop, hnot, if_false, Int.le_refl, or_true, if_true, hnil]
            rw [hloop]
            refine ⟨.last hloa, fun i hi => ?_⟩
            simp only [bitAt, if_pos hi]
        · have hnot : ¬ a < b := by omega
          refine hstep t (!o) hlob (by omega) (hthis.from_head (by omega)) (hother.tail (by omega))
            (by rw [List.length_cons]; omega) (fun i => bitAt_before t as i (Int.le_of_lt hba))
            (fun i => rfl) ?_
          simp only [unionLoop, hba, hnot, if_true, if_false]

/-- **`union`**: a bit of the result is set where one of the two is. -/
theorem union_spec {m : Int} {this other : BoolSpanList} (hthis : Ends m 0 this.spanlist)
    (hother : Ends m 0 other.spanlist) :
    ∃ r, this.union other = some r ∧ Ends m 0 r.spanlist ∧
      ∀ i, i ≤ m → bitAt r.startBit r.spanlist i =
        (bitAt this.startBit this.spanlist i || bitAt other.startBit other.spanlist i) := by
  have hmax : this.spanlist.getLastD 0 = m := by rw [List.getLastD_eq_getLast?, hthis.getLast?]; rfl
  obtain ⟨hends, hbits⟩ := unionLoop_spec _ hthis hother (Nat.le_refl _) this.startBit other.startBit
  refine ⟨⟨this.startBit || other.startBit, _⟩, ?_, hends, hbits⟩
  rw [BoolSpanList.union, hthis.getLast?, hother.getLast?, if_pos rfl, hmax]

/-- Up to the end of the first span the value is the first one. -/
theorem Ends.valueAt_eq {m i e v : Int} {spans : List SpanData}
    (h : Ends m (e + 1) (spans.map SpanData.index)) (hi : i ≤ e)
    (hhead : ∀ s ∈ spans.head?, s.value = v) : valueAt spans i = v := by
  cases spans with
  | nil => exact absurd rfl h.ne_nil
  | cons s spans =>
    have hs := h.head.1
    rw [valueAt, if_pos (by omega)]
    exact hhead s rfl

/-- A span is put out where the value changes: what the list then says. -/
theorem emitValue_spec {m e lo : Int} (hlo : lo ≤ e) (he : e < m) (v next : Int) {r : List SpanData}
    (hr : Ends m (e + 1) (r.map SpanData.index)) (hhead : ∀ s ∈ r.head?, s.value = next)
    (hchanges : r.IsChain fun s s' => s.value ≠ s'.value) :
    let r' := if v ≠ next ∨ m ≤ e then ⟨e, v⟩ :: r else r
    Ends m lo (r'.map SpanData.index) ∧ (∀ s ∈ r'.head?, s.value = v) ∧
      (r'.IsChain fun s s' => s.value ≠ s'.value) ∧
      ∀ i, valueAt r' i = if i ≤ e then v else valueAt r i := by
  dsimp only
  split
  · rename_i hcond
    refine ⟨.cons hlo he hr, fun s hs => ?_, ?_, fun i => rfl⟩
    · obtain rfl := Option.some.inj hs
      rfl
    · rw [List.isChain_cons]
      refine ⟨fun s hs => ?_, hchanges⟩
      rw [hhead s hs]
      exact hcond.resolve_right (by omega)
  · rename_i hcond
    have hnext : v = next := by
      by_contra hne
      exact hcond (.inl hne)
    refine ⟨hr.weaken (by omega), fun s hs => (hhead s hs).trans hnext.symm, hchanges, fun i => ?_⟩
    split
    · rename_i hi
      exact hr.valueAt_eq hi fun s hs => (hhead s hs).trans hnext.symm
    · rfl

/-- A list in its first span. -/
theorem valueAt_before {e : Int} (s : SpanData) (spans : List SpanData) (i : Int) (he : e ≤ s.index) :
    valueAt (s :: spans) i = if i ≤ e then s.value else valueAt (s :: spans) i := by
  split
  · rw [valueAt, if_pos (by omega)]
  · rfl

/-- The first value that can be seen. -/
def headValue (zeroBit : Bool) (spans : List SpanData) : Int :=
  if zeroBit then 0 else (spans.head?.map SpanData.value).getD 0

/-- **The loop of `applyZeroValues`**, from the element `lo` on. -/
theorem zeroLoop_spec {m : Int} (fuel : Nat) {this : List SpanData} {other : List Int} {lo : Int}
    (hthis : Ends m lo (this.map SpanData.index)) (hother : Ends m lo other)
    (hfuel : this.length + other.length ≤ fuel) (z : Bool) :
    let r := zeroLoop m fuel this other z (headValue z this)
    Ends m lo (r.map SpanData.index) ∧ (∀ s ∈ r.head?, s.value = headValue z this) ∧
      (r.IsChain fun s s' => s.value ≠ s'.value) ∧
      ∀ i, i ≤ m → valueAt r i = if bitAt z other i then 0 else valueAt this i := by
  dsimp only
  induction fuel generalizing this other lo z with
  | zero =>
    have := List.length_pos_iff.mpr hother.ne_nil
    omega
  | succ fuel ih =>
    cases this with
    | nil => exact absurd rfl hthis.ne_nil
    | cons a as =>
      cases other with
      | nil => exact absurd rfl hother.ne_nil
      | cons b bs =>
        obtain ⟨hloa, ham⟩ := hthis.head
        obtain ⟨hlob, hbm⟩ := hother.head
        rw [List.length_cons, List.length_cons] at hfuel
        have hstep : ∀ {e : Int} {this' : List SpanData} {other' : List Int} (z' : Bool), lo ≤ e → e < m →
            Ends m (e + 1) (this'.map SpanData.index) → Ends m (e + 1) other' →
            this'.length + other'.length ≤ fuel →
            (∀ i, valueAt (a :: as) i = if i ≤ e then a.value else valueAt this' i) →
            (∀ i, bitAt z (b :: bs) i = if i ≤ e then z else bitAt z' other' i) →
            zeroLoop m (fuel + 1) (a :: as) (b :: bs) z (headValue z (a :: as)) =
              (if headValue z (a :: as) ≠ headValue z' this' ∨ m ≤ e then
                ⟨e, headValue z (a :: as)⟩ :: zeroLoop m fuel this' other' z' (headValue z' this')
              else zeroLoop m fuel this' other' z' (headValue z (a :: as))) →
            let r := zeroLoop m (fuel + 1) (a :: as) (b :: bs) z (headValue z (a :: as))
            Ends m lo (r.map SpanData.index) ∧ (∀ s ∈ r.head?, s.value = headValue z (a :: as)) ∧
              (r.IsChain fun s s' => s.value ≠ s'.value) ∧
              ∀ i, i ≤ m → valueAt r i = if bitAt z (b :: bs) i then 0 else valueAt (a :: as) i := by
          intro e this' other' z' hlo he hthis' hother' hfuel' hvalues hbits hloop
          obtain ⟨hends, hhead, hchanges, hrest⟩ := ih hthis' hother' hfuel' z'
          have hsame : (if headValue z (a :: as) ≠ headValue z' this' ∨ m ≤ e then
                ⟨e, headValue z (a :: as)⟩ :: zeroLoop m fuel this' other' z' (headValue z' this')
              else zeroLoop m fuel this' other' z' (headValue z (a :: as))) =
              (if headValue z (a :: as) ≠ headValue z' this' ∨ m ≤ e then
                ⟨e, headValue z (a :: as)⟩ :: zeroLoop m fuel this' other' z' (headValue z' this')
              else zeroLoop m fuel this' other' z' (headValue z' this')) := by
            split
            · rfl
            · rename_i hcond
              rw [not_or, not_not] at hcond
              rw [hcond.1]
          rw [hloop, hsame]
          obtain ⟨hends', hhead', hchanges', hemit⟩ :=
            emitValue_spec hlo he (headValue z (a :: as)) _ hends hhead hchanges
          refine ⟨hends', hhead', hchanges', fun i hi => ?_⟩
          rw [hemit, hvalues, hbits]
          split
          · rfl
          · exact hrest i hi
        rcases Int.lt_trichotomy a.index b with hab | hab | hba
        · have hnot : ¬ b < a.index := by omega
          have has := hthis.tail (by omega)
          refine hstep z hloa (by omega) has (hother.from_head (by omega))
            (by rw [List.length_cons]; omega) (fun i => rfl)
            (fun i => bitAt_before z bs i (Int.le_of_lt hab)) ?_
          cases as with
          | nil => exact absurd rfl has.ne_nil
          | cons a' as => simp only [zeroLoop, hab, hnot, if_true, if_false]; rfl
        · have hnot : ¬ a.index < b := by omega
          have hnot' : ¬ b < a.index := by omega
          rcases Int.lt_or_eq_of_le hbm with hbm | rfl
          · have has := hthis.tail (by omega)
            rw [hab] at has
            refine hstep (!z) hlob hbm has (hother.tail hbm) (by omega)
              (fun i => by rw [valueAt, hab]) (fun i => rfl) ?_
            cases as with
            | nil => exact absurd rfl has.ne_nil
            | cons a' as => simp only [zeroLoop, hnot, hnot', if_false]; rfl
          · obtain rfl := hother.eq_nil
            have has : as.map SpanData.index = [] := by
              rw [List.map_cons, hab] at hthis
              exact hthis.eq_nil
            obtain rfl := List.map_eq_nil_iff.mp has
            have hnil : ∀ v, zeroLoop b fuel [] [] (!z) v = [] := by
              intro v
              cases fuel <;> rfl
            have hloop : zeroLoop b (fuel + 1) [a] [b] z (headValue z [a]) = [⟨b, headValue z [a]⟩] := by
              simp only [zeroLoop, hnot, hnot', if_false, Int.le_refl, or_true, if_true, hnil]
            rw [hloop]
            refine ⟨.last hlob, fun s hs => ?_, .singleton _, fun i hi => ?_⟩
            · obtain rfl := Option.some.inj hs
              rfl
            · simp only [valueAt, bitAt, hab, if_pos hi]
              rfl
        · have hnot : ¬ a.index < b := by omega
          refine hstep (!z) hlob (by omega) (hthis.from_head (by omega)) (hother.tail (by omega))
            (by rw [List.length_cons]; omega)
            (fun i => valueAt_before a as i (Int.le_of_lt hba)) (fun i => rfl) ?_
          simp only [zeroLoop, hba, hnot, if_true, if_false]
          rfl

/-- **`applyZeroValues`**: the sizes, with those of the elements that are marked set to zero. A span of the
result goes as far as the size does. -/
theorem applyZeroValues_spec {m : Int} {spans : List SpanData} {other : BoolSpanList}
    (hspans : Ends m 0 (spans.map SpanData.index)) (hother : Ends m 0 other.spanlist) :
    ∃ r, applyZeroValues spans other = some r ∧ Ends m 0 (r.map SpanData.index) ∧
      (r.IsChain fun s s' => s.value ≠ s'.value) ∧
      ∀ i, i ≤ m → valueAt r i =
        if bitAt other.startBit other.spanlist i then 0 else valueAt spans i := by
  cases hfirst : spans.head? with
  | none =>
    rw [List.head?_eq_none_iff.mp hfirst] at hspans
    exact absurd rfl hspans.ne_nil
  | some first =>
    have hlast : ∃ last, spans.getLast? = some last ∧ last.index = m := by
      have hindex := hspans.getLast?
      rw [List.getLast?_map] at hindex
      exact Option.map_eq_some_iff.mp hindex
    obtain ⟨last, hlast, rfl⟩ := hlast
    obtain ⟨hends, -, hchanges, hvalues⟩ :=
      zeroLoop_spec _ hspans hother (Nat.le_refl _) other.startBit
    refine ⟨_, ?_, hends, hchanges, hvalues⟩
    rw [applyZeroValues, hfirst, hlast, hother.getLast?]
    dsimp only
    rw [if_pos rfl, headValue, hfirst]
    rfl

/-! ## Positions of spans -/

theorem sumBefore_zero (f : Int → Int) : sumBefore f 0 = 0 := rfl

theorem sumBefore_succ (f : Int → Int) {n : Int} (hn : 0 ≤ n) :
    sumBefore f (n + 1) = sumBefore f n + f n := by
  have hsucc : (n + 1).toNat = n.toNat + 1 := by omega
  rw [sumBefore, hsucc, Finset.sum_range_succ, ← sumBefore, Int.toNat_of_nonneg hn]

/-- The sum goes on evenly where all the elements are alike. -/
theorem sumBefore_const {f : Int → Int} {c lo hi : Int} (hlo : 0 ≤ lo) (hle : lo ≤ hi)
    (hf : ∀ j, lo ≤ j → j < hi → f j = c) : sumBefore f hi = sumBefore f lo + c * (hi - lo) := by
  obtain ⟨n, rfl⟩ : ∃ n : Nat, hi = lo + n := ⟨(hi - lo).toNat, by omega⟩
  clear hle
  induction n with
  | zero => simp
  | succ n ih =>
    have hsucc : lo + ((n + 1 : Nat) : Int) = lo + n + 1 := by omega
    rw [hsucc, sumBefore_succ f (by omega), ih fun j hj hjn => hf j hj (by omega),
      hf (lo + n) (by omega) (by omega)]
    ring

theorem sumBefore_mono {f : Int → Int} (hf : ∀ j, 0 ≤ f j) {a b : Int} (hab : a ≤ b) :
    sumBefore f a ≤ sumBefore f b :=
  Finset.sum_le_sum_of_subset_of_nonneg (Finset.range_mono (by omega)) fun j _ _ => hf j

/-- A span that says of its elements what is true: their size, and where the last one ends. -/
structure Laid (V : Int → Int) (T : ℚ) (v : SpanView) : Prop where
  start_nonneg : 0 ≤ v.start
  start_le : v.start ≤ v.span.index
  value : ∀ i, v.start ≤ i → i ≤ v.span.index → V i = v.span.value
  sizecore : v.span.sizecore = ⌊(v.span.value : ℚ) / T⌋
  poscorepx : v.span.poscorepx = sumBefore (fun i => ⌊(V i : ℚ) / T⌋) (v.span.index + 1)
  postiletwips : v.span.postiletwips = ⌊(v.span.poscorepx : ℚ) * T⌋
  posprinttwips : v.span.posprinttwips = sumBefore V (v.span.index + 1)

/-- **The positions are sums over elements.** -/
theorem laid_addCustomData {V : Int → Int} {T : ℚ} {m lo : Int} {spans : List SpanData}
    (hspans : Ends m lo (spans.map SpanData.index)) (hlo : 0 ≤ lo)
    (hV : ∀ i, lo ≤ i → i ≤ m → V i = valueAt spans i) :
    ∀ v ∈ views lo (addCustomData T (lo - 1) (sumBefore (fun i => ⌊(V i : ℚ) / T⌋) lo)
      (sumBefore V lo) spans), Laid V T v := by
  induction spans generalizing lo with
  | nil => exact absurd rfl hspans.ne_nil
  | cons s spans ih =>
    obtain ⟨hlos, hsm⟩ := hspans.head
    have hvalue : ∀ i, lo ≤ i → i ≤ s.index → V i = s.value := by
      intro i hi his
      rw [hV i hi (by omega), valueAt, if_pos his]
    have hpx : sumBefore (fun i => ⌊(V i : ℚ) / T⌋) lo + ⌊(s.value : ℚ) / T⌋ * (s.index - (lo - 1)) =
        sumBefore (fun i => ⌊(V i : ℚ) / T⌋) (s.index + 1) := by
      rw [sumBefore_const hlo (by omega : lo ≤ s.index + 1) fun j hj hjs =>
        (by rw [hvalue j hj (by omega)] : ⌊(V j : ℚ) / T⌋ = ⌊(s.value : ℚ) / T⌋)]
      ring
    have hpt : sumBefore V lo + s.value * (s.index - (lo - 1)) = sumBefore V (s.index + 1) := by
      rw [sumBefore_const hlo (by omega : lo ≤ s.index + 1) fun j hj hjs => hvalue j hj (by omega)]
      ring
    intro v hv
    rw [addCustomData, views, List.mem_cons] at hv
    rcases hv with rfl | hv
    · exact ⟨hlo, hlos, hvalue, rfl, hpx, rfl, hpt⟩
    · rcases Int.lt_or_eq_of_le hsm with hlt | heq
      · refine ih (hspans.tail hlt) (by omega) (fun i hi him => ?_) v ?_
        · rw [hV i (by omega) him, valueAt, if_neg (by omega)]
        · rw [hpx, hpt] at hv
          rw [Int.add_sub_cancel]
          exact hv
      · rw [List.map_cons, heq] at hspans
        rw [List.map_eq_nil_iff.mp hspans.eq_nil] at hv
        simp [addCustomData, views] at hv

theorem map_index_addCustomData (T : ℚ) (prevIndex posCorePx posPrintTwips : Int)
    (spans : List SpanData) :
    (addCustomData T prevIndex posCorePx posPrintTwips spans).map Span.index =
      spans.map SpanData.index := by
  induction spans generalizing prevIndex posCorePx posPrintTwips with
  | nil => rfl
  | cons s spans ih => rw [addCustomData, List.map_cons, List.map_cons, ih]

/-! ## Searching by element -/

theorem length_views (lo : Int) (spans : List Span) : (views lo spans).length = spans.length := by
  induction spans generalizing lo with
  | nil => rfl
  | cons s spans ih => rw [views, List.length_cons, List.length_cons, ih]

theorem getElem?_views {lo : Int} {spans : List Span} (k : Nat) :
    ((views lo spans)[k]?).map SpanView.span = spans[k]? := by
  induction spans generalizing lo k with
  | nil => rfl
  | cons s spans ih =>
    rw [views]
    cases k with
    | zero => rfl
    | succ k => exact ih k

theorem le_start_of_mem_views {m lo : Int} {spans : List Span} (h : Ends m lo (spans.map Span.index)) :
    ∀ v ∈ views lo spans, lo ≤ v.start := by
  induction spans generalizing lo with
  | nil => simp [views]
  | cons s spans ih =>
    intro v hv
    rw [views, List.mem_cons] at hv
    rcases hv with rfl | hv
    · exact Int.le_refl lo
    · obtain ⟨hlo, hsm⟩ := h.head
      rcases Int.lt_or_eq_of_le hsm with hlt | heq
      · have := ih (h.tail hlt) v hv
        omega
      · rw [List.map_cons, heq] at h
        rw [List.map_eq_nil_iff.mp h.eq_nil] at hv
        simp [views] at hv

theorem pairwise_views {m lo : Int} {spans : List Span} (h : Ends m lo (spans.map Span.index)) :
    (views lo spans).Pairwise fun v w => v.span.index < w.start := by
  induction spans generalizing lo with
  | nil => exact .nil
  | cons s spans ih =>
    rw [views, List.pairwise_cons]
    obtain ⟨hlo, hsm⟩ := h.head
    rcases Int.lt_or_eq_of_le hsm with hlt | heq
    · refine ⟨fun w hw => ?_, ih (h.tail hlt)⟩
      have := le_start_of_mem_views (h.tail hlt) w hw
      change s.index < w.start
      omega
    · rw [List.map_cons, heq] at h
      rw [List.map_eq_nil_iff.mp h.eq_nil]
      exact ⟨by simp [views], .nil⟩

theorem exists_view {m lo : Int} {spans : List Span} (h : Ends m lo (spans.map Span.index)) {i : Int}
    (hlo : lo ≤ i) (him : i ≤ m) : ∃ v ∈ views lo spans, v.start ≤ i ∧ i ≤ v.span.index := by
  induction spans generalizing lo with
  | nil => exact absurd rfl h.ne_nil
  | cons s spans ih =>
    rw [views]
    by_cases hi : i ≤ s.index
    · exact ⟨_, List.mem_cons_self, hlo, hi⟩
    · obtain ⟨v, hv, hin⟩ := ih (h.tail (by omega)) (by omega)
      exact ⟨v, List.mem_cons_of_mem _ hv, hin⟩

/-- The places of two views, by their elements. -/
theorem lt_of_views {m lo : Int} {spans : List Span} (h : Ends m lo (spans.map Span.index)) {j k : Nat}
    {v w : SpanView} (hjk : j < k) (hv : (views lo spans)[j]? = some v)
    (hw : (views lo spans)[k]? = some w) : v.span.index < w.start := by
  obtain ⟨hj, rfl⟩ := List.getElem?_eq_some_iff.mp hv
  obtain ⟨hk, rfl⟩ := List.getElem?_eq_some_iff.mp hw
  exact List.pairwise_iff_getElem.mp (pairwise_views h) j k hj hk hjk

section Views

variable {m : Int} {spans : List Span} (hends : Ends m 0 (spans.map Span.index))
  (hle : ∀ v ∈ views 0 spans, v.start ≤ v.span.index)

include hends hle

theorem isMatch_byIndex {k : Nat} {v : SpanView} (hv : (views 0 spans)[k]? = some v) {i : Int}
    (hstart : v.start ≤ i) (hend : i ≤ v.span.index) :
    IsMatch (directionByIndex spans i) spans.length k := by
  have hk : k < (views 0 spans).length := (List.getElem?_eq_some_iff.mp hv).1
  rw [length_views] at hk
  refine ⟨hk, ?_, fun j hj => ?_, fun j hj hjn => ?_⟩
  · rw [directionByIndex, hv]
    dsimp only
    rw [if_neg (by omega), if_neg (by omega)]
  · obtain ⟨w, hw⟩ : ∃ w, (views 0 spans)[j]? = some w :=
      ⟨_, List.getElem?_eq_getElem (by rw [length_views]; omega)⟩
    have hlt := lt_of_views hends hj hw hv
    have hwle := hle w (List.mem_of_getElem? hw)
    rw [directionByIndex, hw]
    dsimp only
    rw [if_neg (by omega), if_pos (by omega)]
  · obtain ⟨w, hw⟩ : ∃ w, (views 0 spans)[j]? = some w :=
      ⟨_, List.getElem?_eq_getElem (by rw [length_views]; omega)⟩
    have hlt := lt_of_views hends hj hv hw
    rw [directionByIndex, hw]
    dsimp only
    rw [if_pos (by omega)]

theorem getSpanDataByIndex_eq {k : Nat} {v : SpanView} (hv : (views 0 spans)[k]? = some v) {i : Int}
    (hstart : v.start ≤ i) (hend : i ≤ v.span.index) : getSpanDataByIndex spans i = some v := by
  rw [getSpanDataByIndex, binarySearch_eq_some (isMatch_byIndex hends hle hv hstart hend),
    Option.bind_some, hv]

end Views

/-! ## A dimension -/

/-- The dimension has the spans of the geometry, laid out at its zoom. -/
structure Shows (g : Geometry) (d : SheetDimension) : Prop where
  ends : Ends g.last 0 (d.visibleSizes.map Span.index)
  laid : ∀ v ∈ views 0 d.visibleSizes, Laid g.visibleAt d.twipsPerCorePixel v

theorem map_addCustomData (T : ℚ) (prevIndex posCorePx posPrintTwips : Int) (spans : List SpanData) :
    (addCustomData T prevIndex posCorePx posPrintTwips spans).map
      (fun s => (⟨s.index, s.value⟩ : SpanData)) = spans := by
  induction spans generalizing prevIndex posCorePx posPrintTwips with
  | nil => rfl
  | cons s spans ih => rw [addCustomData, List.map_cons, ih]

/-- What `_updatePositions` makes of the visible sizes. -/
theorem Shows.of_visible {g : Geometry} {d : SheetDimension} {visible : List SpanData}
    (hends : Ends g.last 0 (visible.map SpanData.index))
    (hvisible : ∀ i, i ≤ g.last → valueAt visible i = g.visibleAt i)
    (hd : d.visibleSizes = addCustomData d.twipsPerCorePixel (-1) 0 0 visible) : Shows g d := by
  refine ⟨?_, ?_⟩
  · rw [hd, map_index_addCustomData]
    exact hends
  · rw [hd]
    exact laid_addCustomData hends (Int.le_refl 0) fun i _ him => (hvisible i him).symm

/-- **A message that is well formed is loaded**, and shown at any zoom set later on. -/
theorem exists_shows (g : Geometry) (tileSizeTwips₀ tileSizePixels₀ tileSizeTwips tileSizePixels : ℚ)
    (maxIndex : Int) :
    ∃ d₀, SheetDimension.ofMessage tileSizeTwips₀ tileSizePixels₀ maxIndex (encodeSpans g.sizes)
        (encodeBits g.hidden) (encodeBits g.filtered) = some d₀ ∧
      Shows g (d₀.setTileGeometryData tileSizeTwips tileSizePixels) ∧ d₀.maxIndex = maxIndex := by
  obtain ⟨invisible, hunion, hinvisible, hbits⟩ := union_spec g.hidden_ends g.filtered_ends
  obtain ⟨visible, hzero, hends, -, hvalues⟩ := applyZeroValues_spec g.sizes_ends hinvisible
  have hvisible : ∀ i, i ≤ g.last → valueAt visible i = g.visibleAt i := by
    intro i hi
    rw [hvalues i hi, hbits i hi]
    rfl
  have hsizes : g.sizes ≠ [] := fun hnil => g.sizes_ends.ne_nil (by rw [hnil]; rfl)
  refine ⟨⟨g.sizes, g.hidden, g.filtered,
    addCustomData (tileSizeTwips₀ / tileSizePixels₀) (-1) 0 0 visible, maxIndex, tileSizeTwips₀,
    tileSizePixels₀⟩, ?_, ?_, rfl⟩
  · rw [SheetDimension.ofMessage, SheetDimension.update, parseSpanList_encodeSpans hsizes,
      parseBoolSpanList_encodeBits g.hidden_ends.ne_nil,
      parseBoolSpanList_encodeBits g.filtered_ends.ne_nil]
    simp only [Option.bind_eq_bind, Option.bind_some, SheetDimension.updateVisible, hunion, hzero,
      Option.pure_def]
    rfl
  · rw [SheetDimension.setTileGeometryData]
    split
    · exact .of_visible hends hvisible rfl
    · refine .of_visible hends hvisible ?_
      rw [SheetDimension.updatePositions]
      dsimp only
      rw [map_addCustomData]
      rfl

theorem SheetDimension.setTileGeometryData_zoom (d : SheetDimension) (tileSizeTwips tileSizePixels : ℚ) :
    (d.setTileGeometryData tileSizeTwips tileSizePixels).tileSizeTwips = tileSizeTwips ∧
      (d.setTileGeometryData tileSizeTwips tileSizePixels).tileSizePixels = tileSizePixels ∧
      (d.setTileGeometryData tileSizeTwips tileSizePixels).maxIndex = d.maxIndex := by
  rw [SheetDimension.setTileGeometryData]
  split
  · rename_i heq
    exact ⟨heq.1, heq.2, rfl⟩
  · exact ⟨rfl, rfl, rfl⟩

section Elements

variable {g : Geometry} {d : SheetDimension} (h : Shows g d)

include h

theorem Shows.start_le : ∀ v ∈ views 0 d.visibleSizes, v.start ≤ v.span.index :=
  fun v hv => (h.laid v hv).start_le

/-- Every element is found, in the span that has it. -/
theorem Shows.exists_span {i : Int} (hi : 0 ≤ i) (him : i ≤ g.last) :
    ∃ (k : Nat) (v : SpanView), (views 0 d.visibleSizes)[k]? = some v ∧ v.start ≤ i ∧ i ≤ v.span.index ∧
      Laid g.visibleAt d.twipsPerCorePixel v ∧ getSpanDataByIndex d.visibleSizes i = some v := by
  obtain ⟨v, hmem, hstart, hend⟩ := exists_view h.ends hi him
  obtain ⟨k, hk⟩ := List.mem_iff_getElem?.mp hmem
  exact ⟨k, v, hk, hstart, hend, h.laid v hmem, getSpanDataByIndex_eq h.ends h.start_le hk hstart hend⟩

end Elements

namespace Laid

variable {V : Int → Int} {T : ℚ} {v : SpanView}

/-- The position of an element, reckoned back from the end of its span. -/
theorem corepx_eq (h : Laid V T v) {i : Int} (hstart : v.start ≤ i) (hend : i ≤ v.span.index + 1) :
    v.span.poscorepx - v.span.sizecore * (v.span.index - i + 1) =
      sumBefore (fun j => ⌊(V j : ℚ) / T⌋) i := by
  have hnonneg := h.start_nonneg
  rw [h.poscorepx, h.sizecore, sumBefore_const (by omega : 0 ≤ i) hend fun j hj hjs =>
    (by rw [h.value j (by omega) (by omega)] : ⌊(V j : ℚ) / T⌋ = ⌊(v.span.value : ℚ) / T⌋)]
  ring

theorem printtwips_eq (h : Laid V T v) {i : Int} (hstart : v.start ≤ i)
    (hend : i ≤ v.span.index + 1) :
    v.span.posprinttwips - v.span.value * (v.span.index - i + 1) = sumBefore V i := by
  have hnonneg := h.start_nonneg
  rw [h.posprinttwips, sumBefore_const (by omega : 0 ≤ i) hend fun j hj hjs =>
    h.value j (by omega) (by omega)]
  ring

/-- **What is read off a span** for one of its elements. -/
theorem elementData_eq {g : Geometry} {d : SheetDimension} {v : SpanView}
    (h : Laid g.visibleAt d.twipsPerCorePixel v) {i : Int} (hstart : v.start ≤ i)
    (hend : i ≤ v.span.index) (unit : GeometryUnit) :
    d.getElementDataAnyFromSpanByIndex i v unit =
      some ⟨g.startOf d.twipsPerCorePixel unit i, g.sizeOf d.twipsPerCorePixel unit i⟩ := by
  have hpx := h.corepx_eq hstart (by omega)
  have hpt := h.printtwips_eq hstart (by omega)
  have hvalue := h.value i hstart hend
  have hsize : v.span.sizecore = g.pixelsAt d.twipsPerCorePixel i := by
    rw [h.sizecore, Geometry.pixelsAt, hvalue]
  have hnot : ¬ (i < v.start ∨ v.span.index < i) := by omega
  cases unit with
  | corepixels =>
    rw [SheetDimension.getElementDataAnyFromSpanByIndex, if_neg hnot]
    dsimp only
    rw [hpx, hsize]
    rfl
  | printtwips =>
    rw [SheetDimension.getElementDataAnyFromSpanByIndex, if_neg hnot]
    dsimp only
    rw [hpt, ← hvalue]
    rfl
  | tiletwips =>
    rw [SheetDimension.getElementDataAnyFromSpanByIndex, if_neg hnot]
    dsimp only
    rw [hpx, hsize]
    rfl

end Laid

/-- `getElementDataAny` of an element. -/
theorem Shows.getElementDataAny_eq {g : Geometry} {d : SheetDimension} (h : Shows g d) {i : Int}
    (hi : 0 ≤ i) (him : i ≤ g.last) (unit : GeometryUnit) :
    d.getElementDataAny i unit =
      some ⟨g.startOf d.twipsPerCorePixel unit i, g.sizeOf d.twipsPerCorePixel unit i⟩ := by
  obtain ⟨k, v, -, hstart, hend, hlaid, hget⟩ := h.exists_span hi him
  rw [SheetDimension.getElementDataAny, hget, Option.bind_some, hlaid.elementData_eq hstart hend]

/-! ## At a zoom -/

section AtZoom

variable {V : Int → Int} {T T' zoomScale : ℚ} {m i : Int}

/-- The spans behind the element add nothing. -/
theorem foldl_addSpanAtZoom_behind {vs : List SpanView} (hle : ∀ v ∈ vs, v.start ≤ v.span.index)
    (hbehind : ∀ v ∈ vs, i < v.start) (sum : DimensionPosSize) :
    vs.foldl (SheetDimension.addSpanAtZoom zoomScale i) sum = sum := by
  induction vs with
  | nil => rfl
  | cons v vs ih =>
    have hv := hbehind v List.mem_cons_self
    have hvle := hle v List.mem_cons_self
    rw [List.foldl_cons, SheetDimension.addSpanAtZoom, if_neg (by omega), if_neg (by omega)]
    exact ih (fun w hw => hle w (List.mem_cons_of_mem _ hw))
      fun w hw => hbehind w (List.mem_cons_of_mem _ hw)

theorem mem_of_mem_visited {last : Int} {vs : List SpanView} {v : SpanView}
    (h : v ∈ visited last vs) : v ∈ vs := by
  induction vs with
  | nil => simp [visited] at h
  | cons w vs ih =>
    rw [visited, List.mem_cons] at h
    rcases h with rfl | h
    · exact List.mem_cons_self
    · split at h
      · exact List.mem_cons_of_mem _ (ih h)
      · simp at h

/-- **The loop of `getElementData` at a zoom**, from the element `lo` on. -/
theorem foldl_addSpanAtZoom (hzoom : ∀ x : ℚ, x * zoomScale / 15 = x / T) {spans : List Span} {lo : Int}
    (hends : Ends m lo (spans.map Span.index)) (hlaid : ∀ v ∈ views lo spans, Laid V T' v)
    (hlo : 0 ≤ lo) (hi : lo ≤ i) (him : i ≤ m) (size : Int) :
    (visited i (views lo spans)).foldl (SheetDimension.addSpanAtZoom zoomScale i)
        ⟨sumBefore (fun j => ⌊(V j : ℚ) / T⌋) lo, size⟩ =
      ⟨sumBefore (fun j => ⌊(V j : ℚ) / T⌋) i, ⌊(V i : ℚ) / T⌋⟩ := by
  induction spans generalizing lo size with
  | nil => exact absurd rfl hends.ne_nil
  | cons s spans ih =>
    rw [views] at hlaid
    have hs := hlaid ⟨lo, s⟩ List.mem_cons_self
    have hle : lo ≤ s.index := hs.start_le
    have hpx : ∀ n, lo ≤ n → n ≤ s.index + 1 → sumBefore (fun j => ⌊(V j : ℚ) / T⌋) n =
        sumBefore (fun j => ⌊(V j : ℚ) / T⌋) lo + ⌊(s.value : ℚ) / T⌋ * (n - lo) := fun n hn hns =>
      sumBefore_const hlo hn fun j hj hjn => by rw [hs.value j hj (by change j ≤ s.index; omega)]
    rw [views, visited, List.foldl_cons, SheetDimension.addSpanAtZoom]
    dsimp only
    rw [hzoom]
    rcases lt_or_ge s.index i with hlt | hge
    · have hcount : s.index - lo + 1 = s.index + 1 - lo := by omega
      rw [if_pos hlt, if_pos (by omega), hcount, ← hpx (s.index + 1) (by omega) (by omega)]
      exact ih (hends.tail (by omega)) (fun v hv => hlaid v (List.mem_cons_of_mem _ hv)) (by omega)
        (by omega) size
    · rw [if_neg (by omega), if_pos ⟨hi, hge⟩, ← hpx i hi (by omega), ← hs.value i hi hge]
      -- the loop may look at one span more
      split
      · apply foldl_addSpanAtZoom_behind
        · exact fun v hv => (hlaid v (List.mem_cons_of_mem _ (mem_of_mem_visited hv))).start_le
        · intro v hv
          have hlt := List.rel_of_pairwise_cons (pairwise_views hends) (mem_of_mem_visited hv)
          exact lt_of_le_of_lt hge hlt
      · rfl

end AtZoom

/-- `getElementData` at a zoom, whichever it is. -/
theorem Shows.getElementDataAtZoom_of {g : Geometry} {d : SheetDimension} (h : Shows g d)
    {T zoomScale : ℚ} (hzoom : ∀ x : ℚ, x * zoomScale / 15 = x / T) {i : Int} (hi : 0 ≤ i)
    (him : i ≤ g.last) :
    d.getElementDataAtZoom i zoomScale = ⟨g.startOf T .corepixels i, g.sizeOf T .corepixels i⟩ := by
  obtain ⟨k, v, hk, hstart, hend, -, -⟩ := h.exists_span (Int.le_refl 0) (by omega)
  have hfirst : k = 0 := by
    by_contra hne
    obtain ⟨w, hw⟩ : ∃ w, (views 0 d.visibleSizes)[0]? = some w :=
      ⟨_, List.getElem?_eq_getElem (by have := (List.getElem?_eq_some_iff.mp hk).1; omega)⟩
    have hlt := lt_of_views h.ends (by omega) hw hk
    have hle := h.start_le w (List.mem_of_getElem? hw)
    have hnonneg := (h.laid w (List.mem_of_getElem? hw)).start_nonneg
    omega
  subst hfirst
  rw [SheetDimension.getElementDataAtZoom, spansInRange, if_neg (by omega),
    binarySearch_eq_some (isMatch_byIndex h.ends h.start_le hk hstart hend)]
  exact foldl_addSpanAtZoom hzoom h.ends h.laid (Int.le_refl 0) hi him 0

theorem SheetDimension.mul_coreZoomFactor {d : SheetDimension} (htwips : 0 < d.tileSizeTwips)
    (hpixels : 0 < d.tileSizePixels) (x : ℚ) : x * d.coreZoomFactor / 15 = x / d.twipsPerCorePixel := by
  rw [coreZoomFactor, twipsPerCorePixel]
  field_simp

theorem Shows.getElementDataAtZoom_eq {g : Geometry} {d : SheetDimension} (h : Shows g d)
    (htwips : 0 < d.tileSizeTwips) (hpixels : 0 < d.tileSizePixels) {i : Int} (hi : 0 ≤ i)
    (him : i ≤ g.last) :
    d.getElementDataAtZoom i d.coreZoomFactor =
      ⟨g.startOf d.twipsPerCorePixel .corepixels i, g.sizeOf d.twipsPerCorePixel .corepixels i⟩ :=
  h.getElementDataAtZoom_of (d.mul_coreZoomFactor htwips hpixels) hi him

/-- **The answers are those of a sum over the elements.** A well formed message is loaded, and at
every zoom set from then on each element has the size that can be seen of it and the position that
the elements before it add up to, in all units; asked for the current zoom by name the answer is the
same. -/
theorem getElementData_naive (g : Geometry)
    (tileSizeTwips₀ tileSizePixels₀ tileSizeTwips tileSizePixels : ℚ) (maxIndex : Int)
    (htwips : 0 < tileSizeTwips) (hpixels : 0 < tileSizePixels) :
    ∃ d₀, SheetDimension.ofMessage tileSizeTwips₀ tileSizePixels₀ maxIndex (encodeSpans g.sizes)
        (encodeBits g.hidden) (encodeBits g.filtered) = some d₀ ∧
      let d := d₀.setTileGeometryData tileSizeTwips tileSizePixels
      ∀ i, 0 ≤ i → i ≤ g.last →
        (∀ unit, d.getElementDataAny i unit =
          some ⟨g.startOf (tileSizeTwips / tileSizePixels) unit i,
            g.sizeOf (tileSizeTwips / tileSizePixels) unit i⟩) ∧
        d.getElementData i = some (d.getElementDataAtZoom i d.coreZoomFactor) := by
  obtain ⟨d₀, hload, hshows, -⟩ :=
    exists_shows g tileSizeTwips₀ tileSizePixels₀ tileSizeTwips tileSizePixels maxIndex
  obtain ⟨htw, hpx, -⟩ := d₀.setTileGeometryData_zoom tileSizeTwips tileSizePixels
  have hT : (d₀.setTileGeometryData tileSizeTwips tileSizePixels).twipsPerCorePixel =
      tileSizeTwips / tileSizePixels := by rw [SheetDimension.twipsPerCorePixel, htw, hpx]
  refine ⟨d₀, hload, fun i hi him => ⟨fun unit => ?_, ?_⟩⟩
  · rw [hshows.getElementDataAny_eq hi him, hT]
  · rw [SheetDimension.getElementData, hshows.getElementDataAny_eq hi him,
      hshows.getElementDataAtZoom_eq (by rw [htw]; exact htwips) (by rw [hpx]; exact hpixels) hi him]

/-- A sheet of a hundred rows, the first ten of them higher, one hidden and one filtered. -/
def hundredRows : Geometry where
  sizes := [⟨9, 285⟩, ⟨99, 256⟩]
  hidden := ⟨false, [4, 5, 99]⟩
  filtered := ⟨false, [19, 20, 99]⟩
  last := 99
  nonneg := by decide
  sizes_ends := .cons (by decide) (by decide) (.last (by decide))
  hidden_ends := .cons (by decide) (by decide) (.cons (by decide) (by decide) (.last (by decide)))
  filtered_ends := .cons (by decide) (by decide) (.cons (by decide) (by decide) (.last (by decide)))

theorem getElementData_hundredRows :
    (0 : ℚ) < 3840 ∧ (0 : ℚ) < 256 ∧
      ∃ d₀, SheetDimension.ofMessage 3840 256 99 (encodeSpans hundredRows.sizes)
          (encodeBits hundredRows.hidden) (encodeBits hundredRows.filtered) = some d₀ ∧
        let d := d₀.setTileGeometryData 3840 256
        ∀ i, 0 ≤ i → i ≤ hundredRows.last →
          (∀ unit, d.getElementDataAny i unit =
            some ⟨hundredRows.startOf (3840 / 256) unit i, hundredRows.sizeOf (3840 / 256) unit i⟩) ∧
          d.getElementData i = some (d.getElementDataAtZoom i d.coreZoomFactor) :=
  ⟨by norm_num, by norm_num,
    getElementData_naive hundredRows 3840 256 3840 256 99 (by norm_num) (by norm_num)⟩

end Oxool.Sheet
