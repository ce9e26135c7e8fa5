import Oxool.Wsd.Quarantine

/-!
# Making space in the quarantine (`wsd/QuarantineUtil.cpp`)

`makeQuarantineSpace` goes through the files in the order of the sorted listing. It removes a file if the
directory is not smaller than the limit at the time, or if the file has expired. As long as it is not, every
file is removed, so that a file's fate is decided by the files behind it: together with it they reach the
limit or they do not (`mem_victims`).

The order is the one the sort leaves, which can be any; see `Oxool.Wsd.Quarantine`.
-/

set_option autoImplicit false

namespace Oxool.Wsd.Quarantine

open Oxool.Http (Bytes ascii)

/-- The name cannot be read, or it says that the file is too old. -/
def Expired (config : Config) (now : Nat) (f : File) : Prop :=
  (timestampOf f.name).2 = false ∨
    ((timestampOf f.name).1 < now ∧ config.maxAgeSecs < now - (timestampOf f.name).1)

instance (config : Config) (now : Nat) (f : File) : Decidable (Expired config now f) :=
  inferInstanceAs (Decidable (_ ∨ _))

/-- The size of a file and those behind it. -/
def sizeFrom (files : List File) (f : File) : Nat := ((files.dropWhile (· ≠ f)).map File.size).sum

/-! ## The files that are removed -/

/-- The files that `purge` removes. -/
def victims (config : Config) (now : Nat) : List File → Nat → List File
  | [], _ => []
  | f :: files, currentSize =>
    if config.maxSizeBytes ≤ currentSize ∨ Expired config now f then
      f :: victims config now files (currentSize - f.size)
    else victims config now files currentSize

section Victims

variable {config : Config} {now : Nat} {f : File} {files : List File}

theorem mem_of_mem_victims {currentSize : Nat} (h : f ∈ victims config now files currentSize) : f ∈ files := by
  induction files generalizing currentSize with
  | nil => cases h
  | cons g files ih =>
    rw [victims] at h
    split at h
    · rcases List.mem_cons.mp h with rfl | h
      · exact List.mem_cons_self
      · exact List.mem_cons_of_mem _ (ih h)
    · exact List.mem_cons_of_mem _ (ih h)

/-- Below the limit only expired files go. -/
theorem mem_victims_of_lt {currentSize : Nat} (hsize : currentSize < config.maxSizeBytes) :
    f ∈ victims config now files currentSize ↔ f ∈ files ∧ Expired config now f := by
  induction files generalizing currentSize with
  | nil => simp [victims]
  | cons g files ih =>
    rw [victims]
    by_cases hg : Expired config now g
    · rw [if_pos (.inr hg), List.mem_cons, List.mem_cons, ih (by omega)]
      constructor
      · rintro (rfl | ⟨hmem, hexpired⟩)
        · exact ⟨.inl rfl, hg⟩
        · exact ⟨.inr hmem, hexpired⟩
      · rintro ⟨rfl | hmem, hexpired⟩
        · exact .inl rfl
        · exact .inr ⟨hmem, hexpired⟩
    · rw [if_neg (by rintro (hle | hexpired); exacts [absurd hsize (Nat.not_lt.mpr hle), hg hexpired]),
        List.mem_cons, ih hsize]
      constructor
      · rintro ⟨hmem, hexpired⟩
        exact ⟨.inr hmem, hexpired⟩
      · rintro ⟨rfl | hmem, hexpired⟩
        · exact absurd hexpired hg
        · exact ⟨hmem, hexpired⟩

theorem sizeFrom_self (f : File) (files : List File) :
    sizeFrom (f :: files) f = f.size + (files.map File.size).sum := by
  rw [sizeFrom, List.dropWhile_cons_of_neg (by simp), List.map_cons, List.sum_cons]

theorem sizeFrom_cons {g : File} (h : g ≠ f) : sizeFrom (g :: files) f = sizeFrom files f := by
  rw [sizeFrom, sizeFrom, List.dropWhile_cons_of_pos (by simp [h])]

theorem sizeFrom_le : sizeFrom files f ≤ (files.map File.size).sum := by
  induction files with
  | nil => exact Nat.le_refl _
  | cons g files ih =>
    by_cases hg : g = f
    · rw [hg, sizeFrom_self, List.map_cons, List.sum_cons]
    · rw [sizeFrom_cons hg, List.map_cons, List.sum_cons]
      exact Nat.le_add_left_of_le ih

/-- **A file goes** if it has expired, or if it and those behind it reach the limit. -/
theorem mem_victims (hnodup : files.Nodup) :
    f ∈ victims config now files (files.map File.size).sum ↔
      f ∈ files ∧ (config.maxSizeBytes ≤ sizeFrom files f ∨ Expired config now f) := by
  induction files with
  | nil => simp [victims]
  | cons g files ih =>
    rw [List.nodup_cons] at hnodup
    by_cases hlimit : config.maxSizeBytes ≤ ((g :: files).map File.size).sum
    · have hrest : ((g :: files).map File.size).sum - g.size = (files.map File.size).sum := by
        rw [List.map_cons, List.sum_cons, Nat.add_sub_cancel_left]
      rw [victims, if_pos (.inl hlimit), hrest, List.mem_cons, List.mem_cons, ih hnodup.2]
      by_cases heq : f = g
      · subst heq
        rw [sizeFrom_self]
        constructor
        · exact fun _ => ⟨.inl rfl, .inl hlimit⟩
        · exact fun _ => .inl rfl
      · rw [sizeFrom_cons (Ne.symm heq)]
        simp [heq]
    · rw [mem_victims_of_lt (Nat.lt_of_not_le hlimit)]
      have hsmall : ¬ config.maxSizeBytes ≤ sizeFrom (g :: files) f :=
        fun hle => hlimit (Nat.le_trans hle sizeFrom_le)
      simp [hsmall]

end Victims

/-! ## The directory afterwards -/

namespace State

variable {s : State}

/-- No two files have the same name. -/
def Distinct (s : State) : Prop := (s.dir.map File.name).Nodup

theorem Distinct.eq_of_fullpath (h : s.Distinct) {f g : File} (hf : f ∈ s.dir) (hg : g ∈ s.dir)
    (heq : s.fullpath f = s.fullpath g) : f = g :=
  List.inj_on_of_nodup_map h hf hg (List.append_cancel_left heq)

theorem Distinct.stat_eq (h : s.Distinct) {f : File} (hf : f ∈ s.dir) :
    s.stat (s.quarantinePath ++ f.name) = some f := by
  rw [stat]
  cases hfind : s.dir.find? fun g => s.fullpath g = s.quarantinePath ++ f.name with
  | none =>
    rw [List.find?_eq_none] at hfind
    exact absurd (decide_eq_true rfl) (hfind f hf)
  | some g =>
    have hpath : s.fullpath g = s.quarantinePath ++ f.name := by simpa using List.find?_some hfind
    rw [h.eq_of_fullpath (List.mem_of_find?_eq_some hfind) hf hpath]

theorem Distinct.removeFile_eq (h : s.Distinct) {f : File} (hf : f ∈ s.dir) :
    s.removeFile (s.quarantinePath ++ f.name) = { s with dir := s.dir.filter (· ≠ f) } := by
  rw [removeFile]
  congr 1
  apply List.filter_congr
  intro g hg
  rw [decide_eq_decide, not_iff_not]
  constructor
  · exact fun heq => h.eq_of_fullpath hg hf heq
  · rintro rfl
    rfl

theorem Distinct.filter (h : s.Distinct) (p : File → Bool) : Distinct { s with dir := s.dir.filter p } :=
  h.sublist (List.filter_sublist.map _)

theorem purge_cons (s : State) (now : Nat) (f : File) (names : List Bytes) (currentSize : Nat) :
    purge now (f.name :: names) currentSize s =
      if s.config.maxSizeBytes ≤ currentSize ∨ Expired s.config now f then
        purge now names (currentSize - ((s.stat (s.quarantinePath ++ f.name)).map File.size).getD 0)
          (s.removeFile (s.quarantinePath ++ f.name))
      else purge now names currentSize s := rfl

/-- **What `purge` leaves** of the directory. -/
theorem Distinct.purge_eq (h : s.Distinct) (now : Nat) {files : List File} (hnodup : files.Nodup)
    (hfiles : ∀ f ∈ files, f ∈ s.dir) (currentSize : Nat) :
    purge now (files.map File.name) currentSize s =
      { s with dir := s.dir.filter fun g => g ∉ victims s.config now files currentSize } := by
  induction files generalizing s currentSize with
  | nil =>
    rw [List.map_nil, purge, victims, List.filter_eq_self.mpr (by simp)]
  | cons f files ih =>
    rw [List.nodup_cons] at hnodup
    have hf := hfiles f List.mem_cons_self
    have hmore : ∀ g ∈ files, g ∈ s.dir := fun g hg => hfiles g (List.mem_cons_of_mem _ hg)
    rw [List.map_cons, purge_cons, victims]
    by_cases hgoes : s.config.maxSizeBytes ≤ currentSize ∨ Expired s.config now f
    · have hmore' : ∀ g ∈ files, g ∈ ({ s with dir := s.dir.filter (· ≠ f) } : State).dir := by
        intro g hg
        refine List.mem_filter.mpr ⟨hmore g hg, ?_⟩
        rw [decide_eq_true_eq]
        rintro rfl
        exact hnodup.1 hg
      rw [if_pos hgoes, if_pos hgoes, h.stat_eq hf, h.removeFile_eq hf, Option.map_some, Option.getD_some,
        ih (h.filter _) hnodup.2 hmore']
      dsimp only
      rw [List.filter_filter]
      congr 1
      apply List.filter_congr
      intro g _
      rw [Bool.eq_iff_iff, Bool.and_eq_true, decide_eq_true_eq, decide_eq_true_eq, decide_eq_true_eq,
        List.mem_cons, not_or]
      exact and_comm
    · rw [if_neg hgoes, if_neg hgoes, ih h hnodup.2 hmore]

/-- **Making space** removes the files that have expired, and those that reach the limit together with the
files behind them. -/
theorem Distinct.mem_makeQuarantineSpace (h : s.Distinct) (now : Nat) {files : List File}
    (hfiles : files.Perm s.dir) {f : File} :
    f ∈ (s.makeQuarantineSpace now files).dir ↔
      f ∈ s.dir ∧ sizeFrom files f < s.config.maxSizeBytes ∧ ¬ Expired s.config now f := by
  have hnodup : files.Nodup := hfiles.nodup_iff.mpr h.of_map
  have hsize : s.quarantineSize = (files.map File.size).sum := (hfiles.map File.size).sum_eq.symm
  rw [makeQuarantineSpace, h.purge_eq now hnodup (fun f hf => hfiles.mem_iff.mp hf), hsize]
  dsimp only
  rw [List.mem_filter, decide_eq_true_eq, mem_victims hnodup, hfiles.mem_iff]
  constructor
  · rintro ⟨hdir, hstays⟩
    exact ⟨hdir, Nat.lt_of_not_le fun hle => hstays ⟨hdir, .inl hle⟩, fun hexpired => hstays ⟨hdir, .inr hexpired⟩⟩
  · rintro ⟨hdir, hlt, hexpired⟩
    refine ⟨hdir, ?_⟩
    rintro ⟨-, hle | hexpired'⟩
    · exact absurd hlt (Nat.not_lt.mpr hle)
    · exact hexpired hexpired'

/-! ## The oldest first -/

/-- Files that have not expired are removed only if they are no newer than every file that is kept. -/
def EvictsOldest (s : State) (now : Nat) (files : List File) : Prop :=
  ∀ f ∈ s.dir, f ∉ (s.makeQuarantineSpace now files).dir → ¬ Expired s.config now f →
    ∀ g ∈ (s.makeQuarantineSpace now files).dir, (timestampOf f.name).1 ≤ (timestampOf g.name).1

/-- A file that has not expired is removed only while the directory is not smaller than the limit. -/
def StopsBelow (s : State) (now : Nat) (files : List File) : Prop :=
  ∀ (before : List File) (f : File) (behind : List File), files = before ++ f :: behind →
    f ∉ (s.makeQuarantineSpace now files).dir → ¬ Expired s.config now f →
      s.config.maxSizeBytes ≤ (purge now (before.map File.name) s.quarantineSize s).quarantineSize

/-- No file that has not expired and reaches the limit with those behind it is newer than one that has not
expired and does not. -/
def OlderFirst (s : State) (now : Nat) (files : List File) : Prop :=
  ∀ f ∈ files, ∀ g ∈ files, ¬ Expired s.config now f → ¬ Expired s.config now g →
    sizeFrom files g < s.config.maxSizeBytes → s.config.maxSizeBytes ≤ sizeFrom files f →
      (timestampOf f.name).1 ≤ (timestampOf g.name).1

theorem Distinct.evicts_iff (h : s.Distinct) (now : Nat) {files : List File} (hfiles : files.Perm s.dir) :
    s.EvictsOldest now files ↔ s.OlderFirst now files := by
  constructor
  · intro hevicts f hf g hg hexpired hexpired' hbelow hreaches
    apply hevicts f (hfiles.mem_iff.mp hf)
    · rw [h.mem_makeQuarantineSpace now hfiles]
      rintro ⟨-, hlt, -⟩
      exact absurd hlt (Nat.not_lt.mpr hreaches)
    · exact hexpired
    · exact (h.mem_makeQuarantineSpace now hfiles).mpr ⟨hfiles.mem_iff.mp hg, hbelow, hexpired'⟩
  · intro holder f hf hgone hexpired g hg
    obtain ⟨hdir, hbelow, hexpired'⟩ := (h.mem_makeQuarantineSpace now hfiles).mp hg
    apply holder f (hfiles.mem_iff.mpr hf) g (hfiles.mem_iff.mpr hdir) hexpired hexpired' hbelow
    by_contra hlt
    exact hgone ((h.mem_makeQuarantineSpace now hfiles).mpr ⟨hf, Nat.lt_of_not_le hlt, hexpired⟩)

theorem sizeFrom_append {before behind : List File} {f : File} (h : f ∉ before) :
    sizeFrom (before ++ f :: behind) f = ((f :: behind).map File.size).sum := by
  have hall : ∀ g ∈ before, decide (g ≠ f) = true := by
    intro g hg
    rw [decide_eq_true_eq]
    rintro rfl
    exact h hg
  rw [sizeFrom, List.dropWhile_append_of_pos hall, List.dropWhile_cons_of_neg (by simp)]

/-- **Space is made until there is enough**, in any order. -/
theorem Distinct.stopsBelow (h : s.Distinct) (now : Nat) {files : List File} (hfiles : files.Perm s.dir) :
    s.StopsBelow now files := by
  rintro before f behind rfl hgone hexpired
  have hnodup : (before ++ f :: behind).Nodup := hfiles.nodup_iff.mpr h.of_map
  have hparts := List.nodup_append.mp hnodup
  have hbefore : f ∉ before := fun hmem => hparts.2.2 f hmem f List.mem_cons_self rfl
  have hreaches : s.config.maxSizeBytes ≤ sizeFrom (before ++ f :: behind) f := by
    by_contra hlt
    refine hgone ((h.mem_makeQuarantineSpace now hfiles).mpr ⟨?_, Nat.lt_of_not_le hlt, hexpired⟩)
    exact hfiles.mem_iff.mp (List.mem_append_right _ List.mem_cons_self)
  rw [h.purge_eq now hparts.1 fun g hg => hfiles.mem_iff.mp (List.mem_append_left _ hg)]
  refine Nat.le_trans hreaches ?_
  rw [sizeFrom_append hbefore, quarantineSize]
  -- the file and those behind it are still there
  have hleft := (hfiles.filter fun g => g ∉ victims s.config now before s.quarantineSize).map File.size
  have hkept : (f :: behind).filter (fun g => g ∉ victims s.config now before s.quarantineSize) = f :: behind := by
    rw [List.filter_eq_self]
    intro g hg
    rw [decide_eq_true_eq]
    exact fun hmem => hparts.2.2 g (mem_of_mem_victims hmem) g hg rfl
  rw [List.filter_append, hkept, List.map_append] at hleft
  dsimp only
  rw [← hleft.sum_eq, List.sum_append]
  exact Nat.le_add_left _ _

/-! ## The file that was stored -/

section Stored

variable {d : Document} {content : Bytes} {now : Nat}

/-- Where `quarantineFile` answers true. -/
def Quarantines (s : State) (d : Document) (source : Option Bytes) (fails : Bool) : Prop :=
  s.isQuarantined d.docKey source = false ∧ source.isSome = true ∧ fails = false

theorem Distinct.link (h : s.Distinct) (file : File) : (s.link file).Distinct := by
  rw [Distinct, State.link]
  dsimp only
  rw [List.map_append, List.nodup_append]
  refine ⟨h.sublist (List.filter_sublist.map _), List.nodup_singleton _, ?_⟩
  rintro name hname other hother rfl
  obtain ⟨f, hf, rfl⟩ := List.mem_map.mp hname
  obtain ⟨-, hne⟩ := List.mem_filter.mp hf
  exact of_decide_eq_true hne (List.mem_singleton.mp hother)

theorem dir_addVersion (s : State) (d : Document) (content : Bytes) (now : Nat) :
    (s.addVersion d content now).dir = (s.link (version d content now)).dir.filter fun f =>
      s.fullpath f ∉ (s.fileList d.docKey).take (s.excess d.docKey) := by
  have hlength : (s.fileList d.docKey ++ [s.fullpath (version d content now)]).length - s.config.maxVersions =
      s.excess d.docKey := by
    rw [List.length_append, List.length_singleton, excess]
  rw [State.addVersion, clearOldQuarantineVersions_eq]
  dsimp only
  rw [fileList, getD_lookup_put, if_pos rfl]
  show ((s.link (version d content now)).dir.filter fun f => s.fullpath f ∉
    (s.fileList d.docKey ++ [s.fullpath (version d content now)]).take
      ((s.fileList d.docKey ++ [s.fullpath (version d content now)]).length - s.config.maxVersions)) = _
  rw [hlength, List.take_append_of_le_length (s.excess_le _)]

theorem Distinct.addVersion (h : s.Distinct) (d : Document) (content : Bytes) (now : Nat) :
    (s.addVersion d content now).Distinct := by
  rw [Distinct, dir_addVersion]
  exact (h.link _).sublist (List.filter_sublist.map _)

/-- **A new version is there** unless its path is among those of the versions that are too many. -/
theorem mem_addVersion (s : State) (d : Document) (content : Bytes) (now : Nat) :
    version d content now ∈ (s.addVersion d content now).dir ↔
      s.fullpath (version d content now) ∉ (s.fileList d.docKey).take (s.excess d.docKey) := by
  have hlinked : version d content now ∈ (s.link (version d content now)).dir :=
    List.mem_append_right _ (List.mem_singleton_self _)
  rw [dir_addVersion, List.mem_filter, decide_eq_true_eq]
  exact and_iff_right hlinked

/-- The state as it is when space is made for the second time. -/
def stored (s : State) (d : Document) (content : Bytes) (clock : Clock) (files : List File) : State :=
  (s.makeQuarantineSpace clock.first files).addVersion d content clock.named

theorem quarantineFile_eq_stored {clock : Clock} {files files' : List File}
    (h : s.Quarantines d (some content) false) :
    s.quarantineFile d (some content) false clock files files' =
      (s.stored d content clock files).makeQuarantineSpace clock.second files' := by
  rw [State.quarantineFile, if_neg]
  · rfl
  · rw [h.1]
    exact Bool.false_ne_true

/-- Making space changes the directory only. -/
theorem Distinct.makeQuarantineSpace_eq (h : s.Distinct) (now : Nat) {files : List File}
    (hfiles : files.Perm s.dir) :
    ∃ p : File → Bool, s.makeQuarantineSpace now files = { s with dir := s.dir.filter p } :=
  ⟨_, h.purge_eq now (hfiles.nodup_iff.mpr h.of_map) (fun _ hf => hfiles.mem_iff.mp hf) _⟩

/-- **The file that was stored is there at the end** if its path was not listed before among the versions
that are too many now, if it has not expired in the meantime, and if it does not reach the limit together
with the files that are listed behind it. -/
theorem Distinct.mem_quarantineFile_iff (h : s.Distinct) {clock : Clock} {files files' : List File}
    (hfiles : files.Perm s.dir) (hreturns : s.Quarantines d (some content) false)
    (hfiles' : files'.Perm (s.stored d content clock files).dir) :
    version d content clock.named ∈ (s.quarantineFile d (some content) false clock files files').dir ↔
      s.fullpath (version d content clock.named) ∉ (s.fileList d.docKey).take (s.excess d.docKey) ∧
        sizeFrom files' (version d content clock.named) < s.config.maxSizeBytes ∧
          ¬ Expired s.config clock.second (version d content clock.named) := by
  obtain ⟨p, hspace⟩ := h.makeQuarantineSpace_eq clock.first hfiles
  have hdistinct : (s.stored d content clock files).Distinct := by
    rw [stored, hspace]
    exact (h.filter p).addVersion d content clock.named
  have hconfig : (s.stored d content clock files).config = s.config := by
    rw [stored, hspace, State.addVersion, clearOldQuarantineVersions_eq]
    rfl
  rw [quarantineFile_eq_stored hreturns, hdistinct.mem_makeQuarantineSpace clock.second hfiles', hconfig, stored,
    mem_addVersion, hspace]
  rfl

end Stored

/-- **When space is made as it should be.** It is always made only as far as it has to be. The oldest files
go first where the sorted listing has them first. The file that was stored stays where its path was not listed
before, time has not passed, and the listing has it far enough behind. -/
theorem makes_space_iff (s : State) (hdistinct : s.Distinct) :
    (∀ (now : Nat) (files : List File), files.Perm s.dir →
      s.StopsBelow now files ∧ (s.EvictsOldest now files ↔ s.OlderFirst now files)) ∧
    ∀ (d : Document) (content : Bytes) (clock : Clock) (files files' : List File), files.Perm s.dir →
      files'.Perm (s.stored d content clock files).dir → s.Quarantines d (some content) false →
      content.length < s.config.maxSizeBytes →
        (version d content clock.named ∈ (s.quarantineFile d (some content) false clock files files').dir ↔
          s.fullpath (version d content clock.named) ∉ (s.fileList d.docKey).take (s.excess d.docKey) ∧
            sizeFrom files' (version d content clock.named) < s.config.maxSizeBytes ∧
              ¬ Expired s.config clock.second (version d content clock.named)) := by
  constructor
  · intro now files hfiles
    exact ⟨hdistinct.stopsBelow now hfiles, hdistinct.evicts_iff now hfiles⟩
  · intro d content clock files files' hfiles hfiles' hreturns _
    exact hdistinct.mem_quarantineFile_iff hfiles hreturns hfiles'

/-! ## Two versions of half a megabyte -/

/-- A version of half a megabyte. -/
def halfVersion (now : Nat) : File := version letterDocument (List.replicate (2 ^ 19) 0) now

/-- A quarantine of one megabyte. -/
def smallQuarantine (dir : List File) : State := ⟨ascii "/quarantine/", ⟨1, 30, 2⟩, dir, []⟩

theorem size_halfVersion (now : Nat) : (halfVersion now).size = 2 ^ 19 := List.length_replicate

theorem halfVersion_ne : halfVersion 2000 ≠ halfVersion 1000 := by
  intro heq
  have htime := congrArg File.time heq
  exact absurd htime (by decide)

theorem timestampOf_halfVersion {now : Nat} (h : now < 2 ^ 64) : timestampOf (halfVersion now).name = (now, true) :=
  timestampOf_fileName letterDocument h

theorem not_expired_halfVersion {now : Nat} (h : 1000 ≤ now) (h' : now ≤ 2000) :
    ¬ Expired (smallQuarantine []).config 2000 (halfVersion now) := by
  have hage : (smallQuarantine []).config.maxAgeSecs = 1800 := rfl
  rw [Expired, timestampOf_halfVersion (by omega), hage]
  rintro (hread | ⟨-, hold⟩)
  · cases hread
  · dsimp only at hold
    omega

theorem sizeFrom_newer : sizeFrom [halfVersion 2000, halfVersion 1000] (halfVersion 2000) = 2 ^ 20 := by
  rw [sizeFrom_self, size_halfVersion, List.map_singleton, List.sum_singleton, size_halfVersion]
  decide

theorem sizeFrom_older : sizeFrom [halfVersion 2000, halfVersion 1000] (halfVersion 1000) = 2 ^ 19 := by
  rw [sizeFrom_cons halfVersion_ne, sizeFrom_self, size_halfVersion]
  rfl

/-- The names are all the same to the sort. -/
theorem less_halfVersion {now now' : Nat} (h : now < 2 ^ 64) (h' : now' < 2 ^ 64) :
    less (halfVersion now).name (halfVersion now').name = false := by
  rw [less, timestampOf_halfVersion h, timestampOf_halfVersion h']
  simp

theorem distinct_halfVersions : (smallQuarantine [halfVersion 1000, halfVersion 2000]).Distinct := by
  have hnames : ((halfVersion 1000).name ≠ (halfVersion 2000).name) := by decide
  rw [Distinct]
  simpa [smallQuarantine] using hnames

/-- One version leaves room. -/
theorem makeQuarantineSpace_older :
    (smallQuarantine [halfVersion 1000]).makeQuarantineSpace 2000 [halfVersion 1000] =
      smallQuarantine [halfVersion 1000] := by
  have hdistinct : (smallQuarantine [halfVersion 1000]).Distinct := List.nodup_singleton _
  have hsame : [halfVersion 1000].Perm (smallQuarantine [halfVersion 1000]).dir := .refl _
  obtain ⟨p, hp⟩ := hdistinct.makeQuarantineSpace_eq 2000 hsame
  have hmem : halfVersion 1000 ∈ ((smallQuarantine [halfVersion 1000]).makeQuarantineSpace 2000
      [halfVersion 1000]).dir := by
    rw [hdistinct.mem_makeQuarantineSpace 2000 hsame]
    refine ⟨List.mem_cons_self, ?_, not_expired_halfVersion (by decide) (by decide)⟩
    rw [sizeFrom_self, size_halfVersion]
    exact (by decide : 2 ^ 19 + 0 < 2 ^ 20)
  rw [hp] at hmem ⊢
  obtain ⟨-, hkeeps⟩ := List.mem_filter.mp hmem
  rw [smallQuarantine]
  dsimp only
  rw [List.filter_cons_of_pos hkeeps, List.filter_nil]

theorem dir_stored_newer :
    ((smallQuarantine [halfVersion 1000]).stored letterDocument (List.replicate (2 ^ 19) 0) ⟨2000, 2000, 2000⟩
      [halfVersion 1000]).dir = [halfVersion 1000, halfVersion 2000] := by
  have hname : (halfVersion 1000).name ≠ (halfVersion 2000).name := by decide
  have hlinked : ((smallQuarantine [halfVersion 1000]).link (halfVersion 2000)).dir =
      [halfVersion 1000, halfVersion 2000] := by
    rw [link, smallQuarantine]
    dsimp only
    rw [List.filter_eq_self.mpr]
    · rfl
    · intro f hf
      rw [List.mem_singleton.mp hf]
      exact decide_eq_true hname
  have hnone : ((smallQuarantine [halfVersion 1000]).fileList letterDocument.docKey).take
      ((smallQuarantine [halfVersion 1000]).excess letterDocument.docKey) = [] := rfl
  rw [stored, makeQuarantineSpace_older, dir_addVersion, ← halfVersion, hlinked, hnone,
    List.filter_eq_self.mpr (by simp)]

theorem sizeFrom_inOrder :
    sizeFrom [halfVersion 1000, halfVersion 2000] (halfVersion 1000) = 2 ^ 20 ∧
      sizeFrom [halfVersion 1000, halfVersion 2000] (halfVersion 2000) = 2 ^ 19 := by
  constructor
  · rw [sizeFrom_self, size_halfVersion, List.map_singleton, List.sum_singleton, size_halfVersion]
    decide
  · rw [sizeFrom_cons (Ne.symm halfVersion_ne), sizeFrom_self, size_halfVersion]
    rfl

/-- The listing has the older version first, and that one goes. -/
theorem olderFirst_halfVersions : (smallQuarantine [halfVersion 1000, halfVersion 2000]).OlderFirst 2000
    [halfVersion 1000, halfVersion 2000] := by
  have hlimit : (smallQuarantine [halfVersion 1000, halfVersion 2000]).config.maxSizeBytes = 2 ^ 20 := rfl
  intro f hf g hg _ _ _ hreaches
  rw [List.mem_pair] at hf hg
  rcases hf with rfl | rfl
  · rw [timestampOf_halfVersion (by decide)]
    rcases hg with rfl | rfl
    · rw [timestampOf_halfVersion (by decide)]
    · rw [timestampOf_halfVersion (by decide)]
      decide
  · -- the newer one is below the limit
    rw [sizeFrom_inOrder.2, hlimit] at hreaches
    exact absurd hreaches (by decide)

/-- With the older version listed first all is as it should be: it goes, and the newer one stays, also where
the newer one has just been stored. -/
theorem makes_space_iff_halfVersions :
    (smallQuarantine [halfVersion 1000, halfVersion 2000]).StopsBelow 2000
        [halfVersion 1000, halfVersion 2000] ∧
      (smallQuarantine [halfVersion 1000, halfVersion 2000]).EvictsOldest 2000
        [halfVersion 1000, halfVersion 2000] ∧
      halfVersion 1000 ∉ ((smallQuarantine [halfVersion 1000, halfVersion 2000]).makeQuarantineSpace 2000
        [halfVersion 1000, halfVersion 2000]).dir ∧
      halfVersion 2000 ∈ ((smallQuarantine [halfVersion 1000]).quarantineFile letterDocument
        (some (List.replicate (2 ^ 19) 0)) false ⟨2000, 2000, 2000⟩ [halfVersion 1000]
        [halfVersion 1000, halfVersion 2000]).dir := by
  have hlimit : (smallQuarantine []).config.maxSizeBytes = 2 ^ 20 := rfl
  have hsize : ∀ dir, (smallQuarantine dir).config.maxSizeBytes = 2 ^ 20 := fun _ => hlimit
  have hlisting : [halfVersion 1000, halfVersion 2000].Perm
      (smallQuarantine [halfVersion 1000, halfVersion 2000]).dir := .refl _
  obtain ⟨hstops, hevicts⟩ := (makes_space_iff _ distinct_halfVersions).1 2000 _ hlisting
  have hstored := (makes_space_iff (smallQuarantine [halfVersion 1000]) (List.nodup_singleton _)).2
    letterDocument (List.replicate (2 ^ 19) 0) ⟨2000, 2000, 2000⟩ [halfVersion 1000]
    [halfVersion 1000, halfVersion 2000] (.refl _) (by rw [dir_stored_newer]) ⟨rfl, rfl, rfl⟩
    (by rw [List.length_replicate, hsize]; decide)
  refine ⟨hstops, hevicts.mpr olderFirst_halfVersions, ?_, hstored.mpr ⟨?_, ?_, ?_⟩⟩
  · rw [distinct_halfVersions.mem_makeQuarantineSpace 2000 hlisting]
    rintro ⟨-, hlt, -⟩
    rw [sizeFrom_inOrder.1, hsize] at hlt
    exact Nat.lt_irrefl _ hlt
  · exact List.not_mem_nil
  · rw [← halfVersion, sizeFrom_inOrder.2, hsize]
    decide
  · exact not_expired_halfVersion (by decide) (by decide)

/-- **The newest file is the first to go** where the directory lists it first, also the one that was just
stored. -/
theorem not_makes_space :
    (∃ (s : State) (now : Nat) (files : List File), s.Distinct ∧ s.IsListing files ∧ ¬ s.EvictsOldest now files) ∧
    ∃ (s : State) (d : Document) (content : Bytes) (clock : Clock) (files files' : List File),
      s.Distinct ∧ s.IsListing files ∧ (s.stored d content clock files).IsListing files' ∧
        s.Quarantines d (some content) false ∧ content.length < s.config.maxSizeBytes ∧
        version d content clock.named ∉ (s.quarantineFile d (some content) false clock files files').dir := by
  have hlimit : (smallQuarantine []).config.maxSizeBytes = 2 ^ 20 := rfl
  have hlist : [halfVersion 2000, halfVersion 1000].Pairwise fun f g => less g.name f.name = false := by
    rw [List.pairwise_pair]
    exact less_halfVersion (by decide) (by decide)
  constructor
  · refine ⟨smallQuarantine [halfVersion 1000, halfVersion 2000], 2000, [halfVersion 2000, halfVersion 1000],
      distinct_halfVersions, ⟨.swap _ _ _, hlist⟩, ?_⟩
    rw [distinct_halfVersions.evicts_iff 2000 (.swap _ _ _)]
    intro holder
    have hle := holder (halfVersion 2000) List.mem_cons_self (halfVersion 1000)
      (List.mem_cons_of_mem _ List.mem_cons_self) (not_expired_halfVersion (by decide) (by decide))
      (not_expired_halfVersion (by decide) (by decide))
      (by rw [sizeFrom_older]; exact (by decide : 2 ^ 19 < 2 ^ 20))
      (by rw [sizeFrom_newer]; exact Nat.le_of_eq hlimit)
    rw [timestampOf_halfVersion (by decide), timestampOf_halfVersion (by decide)] at hle
    exact absurd hle (by decide)
  · have hdistinct : (smallQuarantine [halfVersion 1000]).Distinct := List.nodup_singleton _
    have hsame : [halfVersion 1000].Perm (smallQuarantine [halfVersion 1000]).dir := .refl _
    have hreturns : (smallQuarantine [halfVersion 1000]).Quarantines letterDocument
        (some (List.replicate (2 ^ 19) 0)) false := ⟨rfl, rfl, rfl⟩
    have hfiles' : [halfVersion 2000, halfVersion 1000].Perm ((smallQuarantine [halfVersion 1000]).stored
        letterDocument (List.replicate (2 ^ 19) 0) ⟨2000, 2000, 2000⟩ [halfVersion 1000]).dir := by
      rw [dir_stored_newer]
      exact .swap _ _ _
    refine ⟨smallQuarantine [halfVersion 1000], letterDocument, List.replicate (2 ^ 19) 0, ⟨2000, 2000, 2000⟩,
      [halfVersion 1000], [halfVersion 2000, halfVersion 1000], hdistinct, ⟨hsame, List.pairwise_singleton _ _⟩,
      ⟨hfiles', hlist⟩, hreturns, ?_, ?_⟩
    · rw [List.length_replicate]
      exact (by decide : 2 ^ 19 < 2 ^ 20)
    · rw [hdistinct.mem_quarantineFile_iff hsame hreturns hfiles']
      rintro ⟨-, hbelow, -⟩
      have hreaches : sizeFrom [halfVersion 2000, halfVersion 1000] (halfVersion 2000) < 2 ^ 20 := hbelow
      rw [sizeFrom_newer] at hreaches
      exact Nat.lt_irrefl _ hreaches

end State

end Oxool.Wsd.Quarantine
