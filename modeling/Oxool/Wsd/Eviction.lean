import Oxool.Wsd.CacheSize

/-!
# Which tiles go (`TileCache::ensureCacheSize`)

When the cache has reached its high watermark, the tiles with the lowest wire ids go, until a quarter
of the watermark is free. The wire id it sorts by is the one in the key of the map, and that key is
written once: `_cache[desc]` finds the old key when a delta is appended, so the id stays the one of
the first keyframe while the tile itself goes on being updated (`lastWid`).

`le_maxToRemove_iff` says which entries are in reach, without the sort and the loop: an entry is
`Due` when the entries before it, by that first id, take up at most a quarter of the watermark. From
there both parts of what an eviction ought to do are conditions on the cache before it: its order
(**no entry in reach was updated after one out of reach**) and the room it makes (**what is in reach
and not being rendered is large enough**).
-/

set_option autoImplicit false

namespace Oxool.Wsd.Tiles

open Oxool.Delta (isKeyframe)

/-- The wire id of the last update of the tile. -/
def TileVectors.lastWid (t : TileVectors) : UInt32 := t.wids.getLastD 0

namespace SizedCache

/-! ## What an eviction ought to do -/

/-- The cache is full, so that tiles go. -/
def Cleans (s : SizedCache) : Prop := ¬ (s.cacheSize < s.maxCacheSize ∨ s.cache.length < 2)

/-- The low watermark: a quarter of the high one is free. -/
def lowWater (s : SizedCache) : Nat := s.maxCacheSize.toNat - s.maxCacheSize.toNat / 4

/-- What went was updated no later than what stayed, and the size came down to the low watermark.
Tiles that are being rendered stay whatever they are. -/
structure EvictsOldest (s : SizedCache) : Prop where
  order : ∀ e ∈ s.cache, e ∉ s.ensureCacheSize.cache → ∀ f ∈ s.ensureCacheSize.cache,
    s.isBeingRendered f.1 = false → e.2.2.lastWid ≤ f.2.2.lastWid
  room : s.ensureCacheSize.cacheSize.toNat ≤ s.lowWater ∨
    ∀ e ∈ s.ensureCacheSize.cache, s.isBeingRendered e.1 = true

/-! ## What is in reach -/

/-- What the entries first saved before a wire id take up. -/
def sizeBefore (s : SizedCache) (wid : UInt32) : Nat :=
  ((s.cache.filter fun e => e.2.1 < wid).map fun e => itemCacheSize e.2.2).sum

/-- Two of the wire ids are so far apart that the counter must have started over. -/
def WrappedAround (s : SizedCache) : Prop :=
  ∃ e ∈ s.cache, ∃ f ∈ s.cache, e.2.1.toNat + 256 * 256 * 256 < f.2.1.toNat

/-- The entry is among the oldest quarter, or all of them go. -/
def Due (s : SizedCache) (e : CacheKey × UInt32 × TileVectors) : Prop :=
  s.WrappedAround ∨ s.sizeBefore e.2.1 ≤ s.maxCacheSize.toNat / 4

instance (s : SizedCache) : Decidable s.WrappedAround :=
  inferInstanceAs (Decidable (∃ e ∈ s.cache, ∃ f ∈ s.cache, _ < _))

instance (s : SizedCache) (e : CacheKey × UInt32 × TileVectors) : Decidable (s.Due e) :=
  inferInstanceAs (Decidable (_ ∨ _))

/-- What is in reach and may go takes up. -/
def sizeDue (s : SizedCache) : Nat :=
  ((s.cache.filter fun e => decide (s.Due e) && !s.isBeingRendered e.1).map
    fun e => itemCacheSize e.2.2).sum

/-- The condition, on the cache before: of the tiles that are not being rendered, none in reach was
updated after one out of reach, and those in reach take up enough, or all of them are in reach. -/
structure OldestInReach (s : SizedCache) : Prop where
  order : ∀ e ∈ s.cache, ∀ f ∈ s.cache, s.isBeingRendered e.1 = false →
    s.isBeingRendered f.1 = false → s.Due e → ¬ s.Due f → e.2.2.lastWid ≤ f.2.2.lastWid
  room : s.totalSize ≤ s.lowWater + s.sizeDue ∨
    ∀ e ∈ s.cache, s.isBeingRendered e.1 = false → s.Due e

/-! ## The loop -/

/-- What the entries of a sorted list before a wire id take up. -/
def before (wid : UInt32) (l : List (UInt32 × UInt64)) : Nat :=
  ((l.filter fun e => e.1 < wid).map fun e => e.2.toNat).sum

theorem before_cons (wid : UInt32) (e : UInt32 × UInt64) (l : List (UInt32 × UInt64)) :
    before wid (e :: l) = (if e.1 < wid then e.2.toNat else 0) + before wid l := by
  unfold before
  by_cases he : e.1 < wid
  · rw [List.filter_cons_of_pos (by simpa using he), if_pos he, List.map_cons, List.sum_cons]
  · rw [List.filter_cons_of_neg (by simpa using he), if_neg he, Nat.zero_add]

theorem before_eq_zero {wid : UInt32} {l : List (UInt32 × UInt64)} (h : ∀ e ∈ l, wid ≤ e.1) :
    before wid l = 0 := by
  have hnil : (l.filter fun e => e.1 < wid) = [] := by
    apply List.filter_eq_nil_iff.mpr
    intro e he hlt
    exact UInt32.not_lt.mpr (h e he) (by simpa using hlt)
  rw [before, hnil]
  rfl

/-- The loop answers a wire id it has been given. -/
theorem le_cutoff {limit total : UInt64} {first wid : UInt32} {l : List (UInt32 × UInt64)}
    (hfirst : wid ≤ first) (h : ∀ e ∈ l, wid ≤ e.1) : wid ≤ cutoff limit total first l := by
  induction l generalizing total first with
  | nil => exact hfirst
  | cons e l ih =>
    have he : wid ≤ e.1 := h e List.mem_cons_self
    rw [cutoff]
    split
    · exact he
    · exact ih he fun f hf => h f (List.mem_cons_of_mem e hf)

/-- **The loop, without the loop.** In a sorted list a wire id is in reach when what lies before it
fits in the limit. -/
theorem le_cutoff_iff {limit total : UInt64} {first : UInt32} {l : List (UInt32 × UInt64)}
    (hsorted : l.Pairwise fun a b => a.1 ≤ b.1) (htotal : total ≤ limit)
    (hfits : total.toNat + (l.map fun e => e.2.toNat).sum < 2 ^ 64) {e : UInt32 × UInt64}
    (he : e ∈ l) :
    e.1 ≤ cutoff limit total first l ↔ total.toNat + before e.1 l ≤ limit.toNat := by
  induction l generalizing total first with
  | nil => cases he
  | cons d l ih =>
    obtain ⟨hd, hl⟩ := List.pairwise_cons.mp hsorted
    rw [List.map_cons, List.sum_cons] at hfits
    have hadd : (total + d.2).toNat = total.toNat + d.2.toNat := by
      rw [UInt64.toNat_add]
      exact Nat.mod_eq_of_lt (by omega)
    have hde : d.1 ≤ e.1 := by
      rcases List.mem_cons.mp he with rfl | he
      · exact UInt32.le_refl _
      · exact hd e he
    have htotal' : total.toNat ≤ limit.toNat := UInt64.le_iff_toNat_le.mp htotal
    rw [cutoff, before_cons]
    split
    · -- the loop ends here, and only what has the wire id of `d` is in reach
      rename_i hover
      have hover' : limit.toNat < total.toNat + d.2.toNat := by
        rw [← hadd]
        exact UInt64.lt_iff_toNat_lt.mp hover
      constructor
      · intro hle
        rw [← UInt32.le_antisymm hde hle, if_neg (UInt32.lt_irrefl _), before_eq_zero hd]
        omega
      · intro hle
        apply UInt32.not_lt.mp
        intro hlt
        rw [if_pos hlt] at hle
        omega
    · rename_i hunder
      have hunder' : total + d.2 ≤ limit := UInt64.not_lt.mp hunder
      have hunder'' : total.toNat + d.2.toNat ≤ limit.toNat := by
        rw [← hadd]
        exact UInt64.le_iff_toNat_le.mp hunder'
      by_cases hlt : d.1 < e.1
      · have hmem : e ∈ l := by
          rcases List.mem_cons.mp he with rfl | hmem
          · exact absurd hlt (UInt32.lt_irrefl _)
          · exact hmem
        rw [ih hl hunder' (by rw [hadd]; omega) hmem, hadd, if_pos hlt, Nat.add_assoc]
      · -- the wire id of `d` itself is in reach, whatever follows
        have heq : d.1 = e.1 := UInt32.le_antisymm hde (UInt32.not_lt.mp hlt)
        rw [if_neg hlt, ← heq, before_eq_zero hd]
        constructor
        · intro _
          omega
        · intro _
          exact le_cutoff (UInt32.le_refl _) hd

/-! ## The entries in reach -/

/-- The wire ids and sizes that are sorted. -/
def widSizes (s : SizedCache) : List (UInt32 × UInt64) :=
  s.cache.map fun e => (e.2.1, UInt64.ofNat (itemCacheSize e.2.2))

theorem itemCacheSize_le {s : SizedCache} {e : CacheKey × UInt32 × TileVectors} (he : e ∈ s.cache) :
    itemCacheSize e.2.2 ≤ s.totalSize :=
  List.le_sum_of_mem (List.mem_map_of_mem he)

/-- The sizes are right in 64 bits, as the whole is. -/
theorem map_toNat_widSizes {s : SizedCache} (hfits : s.totalSize < 2 ^ 64) :
    s.widSizes.map (fun e => (e.1, e.2.toNat)) = s.cache.map fun e => (e.2.1, itemCacheSize e.2.2) := by
  rw [widSizes, List.map_map]
  apply List.map_congr_left
  intro e he
  have hsize := itemCacheSize_le he
  have hlt : itemCacheSize e.2.2 < UInt64.size := Nat.lt_of_le_of_lt hsize hfits
  simp only [Function.comp_apply]
  rw [UInt64.toNat_ofNat_of_lt' hlt]

theorem before_eq (wid : UInt32) (l : List (UInt32 × UInt64)) :
    before wid l =
      (((l.map fun e => (e.1, e.2.toNat)).filter fun e => e.1 < wid).map Prod.snd).sum := by
  rw [before, List.filter_map, List.map_map]
  rfl

def sortedSizes (s : SizedCache) : List (UInt32 × UInt64) :=
  s.widSizes.mergeSort fun a b => decide (a.1 ≤ b.1)

theorem sortedSizes_perm (s : SizedCache) : s.sortedSizes.Perm s.widSizes := List.mergeSort_perm _ _

/-- Sorting leaves what lies before a wire id. -/
theorem before_sortedSizes {s : SizedCache} (hfits : s.totalSize < 2 ^ 64) (wid : UInt32) :
    before wid s.sortedSizes = s.sizeBefore wid := by
  rw [before, ((s.sortedSizes_perm.filter _).map _).sum_eq]
  change before wid s.widSizes = _
  rw [before_eq, map_toNat_widSizes hfits, List.filter_map, List.map_map, sizeBefore]
  rfl

theorem pairwise_sortedSizes (s : SizedCache) : s.sortedSizes.Pairwise fun a b => a.1 ≤ b.1 := by
  have hsorted : s.sortedSizes.Pairwise fun a b => decide (a.1 ≤ b.1) = true := by
    refine List.pairwise_mergeSort (fun a b c hab hbc => ?_) (fun a b => ?_) s.widSizes
    · simp only [decide_eq_true_eq] at *
      exact UInt32.le_trans hab hbc
    · simp only [Bool.or_eq_true, decide_eq_true_eq]
      exact UInt32.le_total a.1 b.1
  exact hsorted.imp fun h => by simpa using h

/-- The first and the last of a sorted list are its least and its greatest. -/
theorem front_le {l : List (UInt32 × UInt64)} (hsorted : l.Pairwise fun a b => a.1 ≤ b.1)
    {e : UInt32 × UInt64} (he : e ∈ l) : (l.head?.map Prod.fst).getD 0 ≤ e.1 := by
  cases l with
  | nil => cases he
  | cons d l =>
    simp only [List.head?_cons, Option.map_some, Option.getD_some]
    rcases List.mem_cons.mp he with rfl | he
    · exact UInt32.le_refl _
    · exact (List.pairwise_cons.mp hsorted).1 e he

theorem le_back {l : List (UInt32 × UInt64)} (hsorted : l.Pairwise fun a b => a.1 ≤ b.1)
    {e : UInt32 × UInt64} (he : e ∈ l) : e.1 ≤ (l.getLast?.map Prod.fst).getD 0 := by
  obtain rfl | ⟨init, d, rfl⟩ := List.eq_nil_or_concat l
  · cases he
  · rw [List.concat_eq_append] at *
    simp only [List.getLast?_concat, Option.map_some, Option.getD_some]
    rcases List.mem_append.mp he with he | he
    · exact (List.pairwise_append.mp hsorted).2.2 e he d (by simp)
    · rw [List.mem_singleton.mp he]
      exact UInt32.le_refl _

/-- The counter has started over when the greatest wire id is far above the least. -/
theorem wrappedAround_iff {s : SizedCache} {l : List (UInt32 × UInt64)}
    (hsorted : l.Pairwise fun a b => a.1 ≤ b.1) (hperm : l.Perm s.widSizes) :
    256 * 256 * 256 < (l.getLast?.map Prod.fst).getD 0 - (l.head?.map Prod.fst).getD 0 ↔
      s.WrappedAround := by
  have hmem : ∀ e, e ∈ l ↔ ∃ d ∈ s.cache, (d.2.1, UInt64.ofNat (itemCacheSize d.2.2)) = e := by
    intro e
    rw [hperm.mem_iff, widSizes, List.mem_map]
  constructor
  · intro hfar
    cases l with
    | nil => exact absurd hfar (by decide)
    | cons d l =>
      have hlast : (d :: l).getLast (by simp) ∈ d :: l := List.getLast_mem _
      rw [List.getLast?_eq_some_getLast (by simp)] at hfar
      simp only [Option.map_some, Option.getD_some, List.head?_cons] at hfar
      obtain ⟨e, he, hed⟩ := (hmem d).mp List.mem_cons_self
      obtain ⟨f, hf, hfl⟩ := (hmem _).mp hlast
      have hle : d.1 ≤ ((d :: l).getLast (by simp)).1 := by
        rcases List.mem_cons.mp hlast with heq | hin
        · rw [heq]
          exact UInt32.le_refl _
        · exact (List.pairwise_cons.mp hsorted).1 _ hin
      refine ⟨e, he, f, hf, ?_⟩
      have hd1 : e.2.1 = d.1 := congrArg Prod.fst hed
      have hf1 : f.2.1 = ((d :: l).getLast (by simp)).1 := congrArg Prod.fst hfl
      rw [hd1, hf1]
      have hfar' := UInt32.lt_iff_toNat_lt.mp hfar
      rw [UInt32.toNat_sub_of_le _ _ hle] at hfar'
      have hnum : (256 * 256 * 256 : UInt32).toNat = 256 * 256 * 256 := by decide
      omega
  · rintro ⟨e, he, f, hf, hfar⟩
    have hfront : _ ≤ e.2.1.toNat :=
      UInt32.le_iff_toNat_le.mp (front_le hsorted ((hmem _).mpr ⟨e, he, rfl⟩))
    have hback : f.2.1.toNat ≤ _ :=
      UInt32.le_iff_toNat_le.mp (le_back hsorted ((hmem _).mpr ⟨f, hf, rfl⟩))
    apply UInt32.lt_iff_toNat_lt.mpr
    rw [UInt32.toNat_sub_of_le _ _ (UInt32.le_iff_toNat_le.mpr (by omega))]
    have hnum : (256 * 256 * 256 : UInt32).toNat = 256 * 256 * 256 := by decide
    omega

theorem maxToRemove_eq (s : SizedCache) :
    s.maxToRemove =
      if 256 * 256 * 256 < (s.sortedSizes.getLast?.map Prod.fst).getD 0 -
          (s.sortedSizes.head?.map Prod.fst).getD 0 then
        (s.sortedSizes.getLast?.map Prod.fst).getD 0
      else cutoff (s.maxCacheSize / 4) 0 ((s.sortedSizes.head?.map Prod.fst).getD 0) s.sortedSizes :=
  rfl

/-- **The entries in reach**, without the sort and the loop. -/
theorem le_maxToRemove_iff {s : SizedCache} (hfits : s.totalSize < 2 ^ 64)
    {e : CacheKey × UInt32 × TileVectors} (he : e ∈ s.cache) :
    e.2.1 ≤ s.maxToRemove ↔ s.Due e := by
  have hsorted := s.pairwise_sortedSizes
  have hmem : (e.2.1, UInt64.ofNat (itemCacheSize e.2.2)) ∈ s.sortedSizes :=
    s.sortedSizes_perm.mem_iff.mpr (List.mem_map_of_mem he)
  have hwrapped := wrappedAround_iff hsorted s.sortedSizes_perm
  rw [maxToRemove_eq]
  by_cases hw : s.WrappedAround
  · rw [if_pos (hwrapped.mpr hw)]
    exact ⟨fun _ => .inl hw, fun _ => le_back hsorted hmem⟩
  · have hsum : (s.sortedSizes.map fun e => e.2.toNat).sum = s.totalSize := by
      rw [(s.sortedSizes_perm.map _).sum_eq]
      have hsizes := congrArg (fun l => (l.map Prod.snd).sum) (map_toNat_widSizes hfits)
      simpa [List.map_map, Function.comp_def, totalSize] using hsizes
    rw [if_neg fun h => hw (hwrapped.mp h)]
    rw [le_cutoff_iff hsorted UInt64.zero_le (by rw [hsum]; simpa using hfits) hmem]
    rw [before_sortedSizes hfits]
    simp [Due, hw]

/-! ## What an eviction does -/

variable {s : SizedCache}

/-- What stays when the cache is full: all but what is in reach and not being rendered. -/
theorem Cleans.mem_cache_iff (hclean : s.Cleans) (hfits : s.totalSize < 2 ^ 64)
    {e : CacheKey × UInt32 × TileVectors} :
    e ∈ s.ensureCacheSize.cache ↔
      e ∈ s.cache ∧ ¬ (s.Due e ∧ s.isBeingRendered e.1 = false) := by
  unfold ensureCacheSize
  rw [if_neg hclean]
  dsimp only
  rw [clean_fst, List.mem_filter]
  constructor
  · rintro ⟨he, hstays⟩
    refine ⟨he, ?_⟩
    rintro ⟨hdue, hnot⟩
    simp [goes, hnot, (le_maxToRemove_iff hfits he).mpr hdue] at hstays
  · rintro ⟨he, hstays⟩
    refine ⟨he, ?_⟩
    rw [Bool.not_eq_true']
    apply Bool.eq_false_iff.mpr
    intro hgoes
    simp only [goes, Bool.and_eq_true, decide_eq_true_eq, Bool.not_eq_true'] at hgoes
    exact hstays ⟨(le_maxToRemove_iff hfits he).mp hgoes.1, hgoes.2⟩

/-- The size afterwards is short of what was in reach and not being rendered. -/
theorem Cleans.cacheSize_add (hclean : s.Cleans) (h : s.Inv) (hfits : s.totalSize < 2 ^ 64) :
    s.ensureCacheSize.cacheSize.toNat + s.sizeDue = s.totalSize := by
  have hgoes : s.cache.filter (s.goes s.maxToRemove) =
      s.cache.filter fun e => decide (s.Due e) && !s.isBeingRendered e.1 := by
    apply List.filter_congr
    intro e he
    rw [goes, decide_eq_decide.mpr (le_maxToRemove_iff hfits he)]
  have hsplit : s.ensureCacheSize.totalSize + s.sizeDue = s.totalSize := by
    have hperm := (List.filter_append_perm (s.goes s.maxToRemove) s.cache).map
      fun e => itemCacheSize e.2.2
    have hsum := hperm.sum_eq
    rw [List.map_append, List.sum_append, hgoes] at hsum
    rw [totalSize, ensureCacheSize, if_neg hclean]
    dsimp only
    rw [clean_fst, Nat.add_comm]
    exact hsum
  rw [h.ensureCacheSize.accounted.exact (by omega)]
  exact hsplit

/-- The order of an eviction is right when no tile in reach was updated after one out of reach. -/
theorem Cleans.order_iff (hclean : s.Cleans) (hfits : s.totalSize < 2 ^ 64) :
    (∀ e ∈ s.cache, e ∉ s.ensureCacheSize.cache → ∀ f ∈ s.ensureCacheSize.cache,
      s.isBeingRendered f.1 = false → e.2.2.lastWid ≤ f.2.2.lastWid) ↔
    ∀ e ∈ s.cache, ∀ f ∈ s.cache, s.isBeingRendered e.1 = false →
      s.isBeingRendered f.1 = false → s.Due e → ¬ s.Due f → e.2.2.lastWid ≤ f.2.2.lastWid := by
  constructor
  · intro horder e he f hf hne hnf hdue hnot
    apply horder e he
    · intro hmem
      exact ((hclean.mem_cache_iff hfits).mp hmem).2 ⟨hdue, hne⟩
    · exact (hclean.mem_cache_iff hfits).mpr ⟨hf, fun hand => hnot hand.1⟩
    · exact hnf
  · intro horder e he hgone f hf hnf
    obtain ⟨hfmem, hfstays⟩ := (hclean.mem_cache_iff hfits).mp hf
    have hegoes : s.Due e ∧ s.isBeingRendered e.1 = false := by
      by_contra hstays
      exact hgone ((hclean.mem_cache_iff hfits).mpr ⟨he, hstays⟩)
    exact horder e he f hfmem hegoes.2 hnf hegoes.1 fun hdue => hfstays ⟨hdue, hnf⟩

/-- An eviction makes enough room when what is in reach is enough, or is all there is. -/
theorem Cleans.room_iff (hclean : s.Cleans) (h : s.Inv) (hfits : s.totalSize < 2 ^ 64) :
    (s.ensureCacheSize.cacheSize.toNat ≤ s.lowWater ∨
      ∀ e ∈ s.ensureCacheSize.cache, s.isBeingRendered e.1 = true) ↔
    (s.totalSize ≤ s.lowWater + s.sizeDue ∨
      ∀ e ∈ s.cache, s.isBeingRendered e.1 = false → s.Due e) := by
  have hsize := hclean.cacheSize_add h hfits
  apply or_congr
  · omega
  · constructor
    · intro hall e he hnot
      by_contra hdue
      have hstays := hall e ((hclean.mem_cache_iff hfits).mpr ⟨he, fun hand => hdue hand.1⟩)
      rw [hnot] at hstays
      cases hstays
    · intro hall e hmem
      obtain ⟨he, hstays⟩ := (hclean.mem_cache_iff hfits).mp hmem
      by_contra hnot
      rw [Bool.not_eq_true] at hnot
      exact hstays ⟨hall e he hnot, hnot⟩

/-- **Eviction order.** When the cache is full, the oldest tiles go and enough of them exactly when,
of the tiles not being rendered, none among the oldest quarter by first wire id was updated after one
outside it, and that quarter takes up enough or is all there is. The entries are in memory, so their
sizes add up to less than 2^64. -/
theorem evictsOldest_iff (h : s.Inv) (hfits : s.totalSize < 2 ^ 64) (hclean : s.Cleans) :
    s.EvictsOldest ↔ s.OldestInReach := by
  constructor
  · rintro ⟨horder, hroom⟩
    exact ⟨(hclean.order_iff hfits).mp horder, (hclean.room_iff h hfits).mp hroom⟩
  · rintro ⟨horder, hroom⟩
    exact ⟨(hclean.order_iff hfits).mpr horder, (hclean.room_iff h hfits).mpr hroom⟩

/-! ## Two runs -/

/-- A tile of the top row. -/
def topRow (x : Nat) (wireId : UInt32) : TileDesc :=
  { normalizedViewId := 1000
    part := 0
    mode := 0
    width := 256
    height := 256
    tilePosX := x
    tilePosY := 0
    tileWidth := 3840
    tileHeight := 3840
    ver := 1
    imgSize := 0
    id := -1
    oldWireId := 0
    wireId := wireId
    width_pos := TileDesc.usualPixels_pos
    height_pos := TileDesc.usualPixels_pos
    tileWidth_pos := TileDesc.usualTwips_pos
    tileHeight_pos := TileDesc.usualTwips_pos }

def keyframeOfTen : List UInt8 := 0x5a :: List.replicate 10 0

def deltaOfTen : List UInt8 := 0x44 :: List.replicate 10 0

/-- Two tiles are saved, and fill the cache. -/
def savedInTurn : List Action :=
  [.setMaxCacheSize 164, .saveDataToCache (topRow 0 1) keyframeOfTen,
    .saveDataToCache (topRow 3840 2) keyframeOfTen]

/-- Two tiles are saved, and the first one is updated. -/
def firstUpdated : List Action :=
  [.setMaxCacheSize 170, .saveDataToCache (topRow 0 1) keyframeOfTen,
    .saveDataToCache (topRow 3840 2) keyframeOfTen, .saveDataToCache (topRow 0 3) deltaOfTen]

theorem inv_run (actions : List Action) : (actions.foldl act init).Inv := by
  have halways : Run.Always act Inv init actions :=
    Run.always_of_inv (fun _ h => h) (fun _ a h => h.act a) ⟨List.nodup_nil, rfl, by simp [init]⟩
  exact halways.last

theorem evictsOldest_savedInTurn :
    (savedInTurn.foldl act init).Cleans ∧ (savedInTurn.foldl act init).EvictsOldest := by
  have hclean : (savedInTurn.foldl act init).Cleans := by
    unfold Cleans
    decide
  refine ⟨hclean, (evictsOldest_iff (inv_run savedInTurn) (by decide) hclean).mpr ⟨?_, ?_⟩⟩
  · decide
  · left
    decide

/-- The tile that goes was updated last. -/
theorem not_evictsOldest :
    (firstUpdated.foldl act init).Cleans ∧ ¬ (firstUpdated.foldl act init).EvictsOldest := by
  have hclean : (firstUpdated.foldl act init).Cleans := by
    unfold Cleans
    decide
  refine ⟨hclean, fun h => ?_⟩
  have horder := (hclean.order_iff (by decide)).mp h.order
  exact absurd horder (by decide)

end SizedCache

end Oxool.Wsd.Tiles
