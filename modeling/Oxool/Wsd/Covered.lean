import Oxool.Wsd.DocumentBroker

/-!
# The attributes of what is not in storage yet

The broker captures the attributes of a save when it sends it, merges them into those of the next
upload when it is answered, and hands them to the storage with the upload: `next`, `current` and
`last`. What they have to carry is in the ledger, a list of the saves that are not in storage yet.
A record `Covers` such a list if it has the flags of all of them and the newest extended data.

`AttributesKept` says that nothing is forgotten: `next` covers the saves in flight, `current` those
that were answered, `last` those being uploaded, and the attributes of an upload made now cover all
that were answered. The broker keeps them if every action is one of `AttributesCarried`
(`attributes_kept`), which rules out six ways of forgetting:

* a save sent while another is in flight takes its place in `next`;
* an upload made while a save is in flight resets `next`;
* an upload made while another is in progress takes its place in `last`;
* an upload that cannot be started leaves `last` as it is, and the next one overwrites it;
* a save-as or a rename takes the attributes of the document, and does not give them back when it
  is accepted;
* the extended data of a failed upload replaces that of a newer save.
-/

set_option autoImplicit false

namespace Oxool.Wsd

/-! ## Covering -/

/-- The extended data of the last save that had any. -/
def newestData : List Attributes → String
  | [] => ""
  | a :: rest => if newestData rest ≠ "" then newestData rest else a.extendedData

theorem newestData_append (l m : List Attributes) :
    newestData (l ++ m) = if newestData m ≠ "" then newestData m else newestData l := by
  induction l with
  | nil =>
    by_cases hm : newestData m = ""
    · simp [newestData, hm]
    · simp [hm]
  | cons a l ih =>
    by_cases hm : newestData m = ""
    · simp only [List.cons_append, newestData, ih, hm, ne_eq, not_true_eq_false, if_false]
    · simp [newestData, ih, hm]

namespace Attributes

/-- The flags of all of them, and the newest extended data. -/
structure Covers (a : Attributes) (owed : List Attributes) : Prop where
  isUserModified : (∃ x ∈ owed, x.isUserModified = true) → a.isUserModified = true
  forced : (∃ x ∈ owed, x.forced = true) → a.forced = true
  extendedData : newestData owed ≠ "" → a.extendedData = newestData owed

/-- Nothing that has to be kept. -/
def isBlank (a : Attributes) : Bool := !a.isUserModified && !a.forced && a.extendedData == ""

/-- The same in what has to be kept. -/
structure Alike (a a' : Attributes) : Prop where
  isUserModified : a.isUserModified = a'.isUserModified
  forced : a.forced = a'.forced
  extendedData : a.extendedData = a'.extendedData

theorem isBlank_iff {a : Attributes} : a.isBlank = true ↔ a.Alike {} := by
  constructor
  · intro h
    obtain ⟨⟨hm, hf⟩, hd⟩ : (a.isUserModified = false ∧ a.forced = false) ∧
        a.extendedData = "" := by simpa [isBlank] using h
    exact ⟨hm, hf, hd⟩
  · rintro ⟨hm, hf, hd⟩
    simp [isBlank, hm, hf, hd]

variable {a a' b : Attributes} {l m : List Attributes}

theorem covers_nil (a : Attributes) : a.Covers [] :=
  ⟨by simp, by simp, by simp [newestData]⟩

theorem Alike.covers_singleton (h : a.Alike a') : a.Covers [a'] := by
  refine ⟨?_, ?_, ?_⟩
  · simpa using fun hm => h.isUserModified.trans hm
  · simpa using fun hf => h.forced.trans hf
  · intro _
    simpa [newestData] using h.extendedData

/-- What a blank record covers, any record covers. -/
theorem Covers.of_blank (h : a.Covers l) (ha : a.isBlank = true) (a' : Attributes) :
    a'.Covers l := by
  obtain ⟨hm, hf, hd⟩ := isBlank_iff.1 ha
  refine ⟨?_, ?_, ?_⟩
  · intro hex
    exact absurd ((h.isUserModified hex).symm.trans hm) (by simp)
  · intro hex
    exact absurd ((h.forced hex).symm.trans hf) (by simp)
  · intro hne
    exact absurd ((h.extendedData hne).symm.trans hd) hne

theorem merge_isUserModified (a a' : Attributes) :
    (a.merge a').isUserModified = (a'.isUserModified || a.isUserModified) := by
  cases h : a'.isUserModified <;> simp [merge, h]

theorem merge_forced (a a' : Attributes) :
    (a.merge a').forced = (a'.forced || a.forced) := by
  cases h : a'.forced <;> simp [merge, h]

theorem merge_extendedData (a a' : Attributes) :
    (a.merge a').extendedData =
      if a'.extendedData ≠ "" then a'.extendedData else a.extendedData := rfl

/-- `merge` has the flags of both; which data it has to have depends on which is newer. -/
theorem Covers.merge (ha : a.Covers l) (ha' : a'.Covers m) {k : List Attributes}
    (hk : ∀ x ∈ k, x ∈ l ∨ x ∈ m)
    (hd : newestData k ≠ "" → (a.merge a').extendedData = newestData k) :
    (a.merge a').Covers k := by
  refine ⟨?_, ?_, hd⟩
  · rintro ⟨x, hx, hm⟩
    rw [merge_isUserModified]
    rcases hk x hx with hx | hx
    · rw [ha.isUserModified ⟨x, hx, hm⟩, Bool.or_true]
    · rw [ha'.isUserModified ⟨x, hx, hm⟩, Bool.true_or]
  · rintro ⟨x, hx, hf⟩
    rw [merge_forced]
    rcases hk x hx with hx | hx
    · rw [ha.forced ⟨x, hx, hf⟩, Bool.or_true]
    · rw [ha'.forced ⟨x, hx, hf⟩, Bool.true_or]

/-- The attributes of a newer save are merged in. -/
theorem Covers.merge_newer (ha : a.Covers l) (ha' : a'.Alike b) :
    (a.merge a').Covers (l ++ [b]) := by
  refine ha.merge ha'.covers_singleton (fun x hx => List.mem_append.1 hx) ?_
  rw [newestData_append, merge_extendedData, ha'.extendedData]
  have hb : newestData [b] = b.extendedData := rfl
  rw [hb]
  by_cases hd : b.extendedData = ""
  · rw [if_neg (not_not.2 hd), if_neg (not_not.2 hd)]
    exact ha.extendedData
  · rw [if_pos hd, if_pos hd]
    exact fun _ => rfl

/-- The attributes of an older upload are merged back. -/
theorem Covers.merge_older (ha : a.Covers l) (ha' : a'.Covers m)
    (hd : a'.extendedData = "" ∨ a.extendedData = "" ∨ a'.extendedData = a.extendedData) :
    (a.merge a').Covers (m ++ l) := by
  refine ha.merge ha' (fun x hx => (List.mem_append.1 hx).symm) ?_
  rw [newestData_append, merge_extendedData]
  by_cases hl : newestData l = ""
  · rw [if_neg (not_not.2 hl)]
    intro hm
    rw [ha'.extendedData hm]
    exact if_pos hm
  · rw [if_pos hl, ← ha.extendedData hl]
    intro hne
    rcases hd with hd | hd | hd
    · exact if_neg (not_not.2 hd)
    · exact absurd hd hne
    · rw [hd]
      exact if_pos hne

end Attributes

/-! ## What is kept, and by which actions -/

/-- No attribute of a save that is not in storage is forgotten. -/
structure AttributesKept (b : DocumentBroker) : Prop where
  next : b.nextStorageAttrs.Covers (b.ledger.saves.map SaveSent.captured)
  current : b.currentStorageAttrs.Covers b.ledger.owed
  last : b.lastStorageAttrs.Covers b.ledger.taken
  passed : b.uploadHttpSession = none →
    ∀ force, (b.uploadAttrs force).Covers (b.ledger.taken ++ b.ledger.owed)

/-- A save is sent when none is in flight. An upload is made when none is in progress and no save
in flight has attributes; one that cannot be started, or is not of the document itself, has nothing
to carry. When an upload fails, there is no newer extended data than its own. -/
def AttributesCarried (b : DocumentBroker) : Action → Prop
  | .sendUnoSave _ _ _ => b.ledger.saves = []
  | .upload u =>
    b.uploadHttpSession = none ∧ (b.ledger.saves = [] ∨ b.nextStorageAttrs.isBlank = true) ∧
      (u.isPlain = true ∨ b.currentStorageAttrs.isBlank = true) ∧
      ((b.uploadLocalFileToStorageAsync u (b.uploadAttrs u.force)).isSome = true ∨
        (b.currentStorageAttrs.isBlank = true ∧ u.force = false))
  | .uploadResult result =>
    result = .ok ∨ b.uploadHttpSession = none ∨ b.lastStorageAttrs.extendedData = "" ∨
      b.currentStorageAttrs.extendedData = "" ∨
      b.lastStorageAttrs.extendedData = b.currentStorageAttrs.extendedData
  | _ => True

instance (b : DocumentBroker) (a : Action) : Decidable (AttributesCarried b a) := by
  apply Action.casesOn (motive := fun a => Decidable (AttributesCarried b a)) a <;> intros <;>
  unfold AttributesCarried <;> infer_instance

/-! ## The invariant -/

/-- At most one save is in flight, and `next` is what was captured for it. -/
structure AttributesInv (b : DocumentBroker) : Prop where
  inFlight : b.ledger.saves = [] ∨
    ∃ sent, b.ledger.saves = [sent] ∧ b.nextStorageAttrs.Alike sent.captured
  current : b.currentStorageAttrs.Covers b.ledger.owed
  last : b.lastStorageAttrs.Covers b.ledger.taken
  idle : b.uploadHttpSession = none → b.ledger.taken = []
  request : b.uploadHttpSession.isSome = true → b.uploadRequest.isSome = true

theorem attributesInv_init (c : Config) : AttributesInv (init c) where
  inFlight := .inl rfl
  current := Attributes.covers_nil _
  last := Attributes.covers_nil _
  idle := fun _ => rfl
  request := by simp [init]

/-- An upload passes on what `current` covers. -/
theorem covers_uploadAttrs {b : DocumentBroker} {owed : List Attributes}
    (h : b.currentStorageAttrs.Covers owed) (force : Bool) :
    (b.uploadAttrs force).Covers owed := by
  cases force with
  | false => exact ⟨h.isUserModified, h.forced, h.extendedData⟩
  | true => exact ⟨h.isUserModified, fun _ => rfl, h.extendedData⟩

theorem covers_uploadAttrs_forced {b : DocumentBroker} {owed : List Attributes}
    (h : b.currentStorageAttrs.Covers owed) (force : Bool) :
    (b.uploadAttrs force).Covers (owed ++ DocumentBroker.forcedAttrs force) := by
  have hcovers := covers_uploadAttrs h force
  cases force with
  | false =>
    rw [DocumentBroker.forcedAttrs_false, List.append_nil]
    exact hcovers
  | true =>
    rw [DocumentBroker.forcedAttrs_true]
    refine ⟨?_, fun _ => rfl, ?_⟩
    · rintro ⟨x, hx, hm⟩
      rcases List.mem_append.1 hx with hx | hx
      · exact hcovers.isUserModified ⟨x, hx, hm⟩
      · rw [List.mem_singleton.1 hx] at hm
        cases hm
    · rw [newestData_append]
      exact hcovers.extendedData

namespace AttributesInv

variable {b : DocumentBroker}

theorem kept (h : AttributesInv b) : AttributesKept b := by
  refine ⟨?_, h.current, h.last, ?_⟩
  · rcases h.inFlight with hs | ⟨sent, hs, halike⟩
    · rw [hs]
      exact Attributes.covers_nil _
    · rw [hs]
      exact halike.covers_singleton
  · intro hnone force
    rw [h.idle hnone, List.nil_append]
    exact covers_uploadAttrs h.current force

theorem sendUnoSave (h : AttributesInv b) (hs : b.ledger.saves = []) (isAutosave : Bool)
    (extendedData : String) (forwarded : Bool) :
    AttributesInv (b.sendUnoSave isAutosave extendedData forwarded) := by
  cases forwarded with
  | false => exact ⟨.inl hs, h.current, h.last, h.idle, h.request⟩
  | true =>
    rw [DocumentBroker.sendUnoSave_sent, hs]
    refine ⟨.inr ⟨_, rfl, ?_⟩, h.current, h.last, h.idle, h.request⟩
    exact ⟨rfl, rfl, rfl⟩

theorem alike_settle {a a' : Attributes} (h : a.Alike a') (answer : SaveAnswer) :
    (DocumentBroker.settle answer a).Alike (DocumentBroker.settle answer a') := by
  unfold DocumentBroker.settle
  cases answer.wasModified with
  | none => exact h
  | some wasModified => exact ⟨rfl, h.forced, h.extendedData⟩

/-- The captured attributes are settled and join those of the saves before. -/
theorem saveResult (h : AttributesInv b) (answer : SaveAnswer) :
    AttributesInv (b.saveResult answer) := by
  rcases h.inFlight with hs | ⟨sent, hs, halike⟩
  · rwa [DocumentBroker.saveResult_nil (by rw [Ledger.awaited, hs]; rfl)]
  · cases hlost : sent.lost with
    | true => rwa [DocumentBroker.saveResult_nil (by simp [Ledger.awaited, hs, hlost])]
    | false =>
      have hawaited : b.ledger.awaited = [sent] := by simp [Ledger.awaited, hs, hlost]
      rw [DocumentBroker.saveResult, hawaited]
      refine ⟨.inl rfl, ?_, h.last, h.idle, h.request⟩
      exact h.current.merge_newer (alike_settle halike answer)

/-- A save whose answer was lost has what was captured for it. -/
theorem loseAnswer (h : AttributesInv b) (answer : SaveAnswer) :
    AttributesInv (b.loseAnswer answer) := by
  cases ha : b.ledger.awaited with
  | nil => rwa [DocumentBroker.loseAnswer_nil ha]
  | cons first rest =>
    rw [DocumentBroker.loseAnswer_cons ha]
    refine ⟨?_, h.current, h.last, h.idle, h.request⟩
    dsimp only
    rcases h.inFlight with hs | ⟨sent, hs, halike⟩
    · exact .inl (by rw [hs]; rfl)
    · right
      rw [hs, DocumentBroker.loseFirst]
      split
      · exact ⟨sent, rfl, halike⟩
      · exact ⟨{ sent with lost := true }, rfl, halike⟩

theorem giveUpSave (h : AttributesInv b) : AttributesInv b.giveUpSave := by
  refine ⟨?_, h.current, h.last, h.idle, h.request⟩
  rcases h.inFlight with hs | ⟨sent, hs, halike⟩
  · exact .inl (by rw [DocumentBroker.giveUpSave, hs]; rfl)
  · exact .inr ⟨{ sent with givenUp := true }, by rw [DocumentBroker.giveUpSave, hs]; rfl, halike⟩

/-- `next` may be reset if it is blank. -/
theorem inFlight_reset (h : AttributesInv b)
    (hok : b.ledger.saves = [] ∨ b.nextStorageAttrs.isBlank = true) :
    b.ledger.saves = [] ∨
      ∃ sent, b.ledger.saves = [sent] ∧ ({} : Attributes).Alike sent.captured := by
  rcases h.inFlight with hs | ⟨sent, hs, halike⟩
  · exact .inl hs
  · rcases hok with hs' | hblank
    · exact .inl hs'
    · obtain ⟨hm, hf, hd⟩ := Attributes.isBlank_iff.1 hblank
      exact .inr ⟨sent, hs, hm.symm.trans halike.isUserModified, hf.symm.trans halike.forced,
        hd.symm.trans halike.extendedData⟩

theorem upload (h : AttributesInv b) {u : UploadAttempt}
    (hok : AttributesCarried b (.upload u)) : AttributesInv (b.upload u) := by
  obtain ⟨hnone, hnext, hplain, hstart⟩ := hok
  have hinFlight := h.inFlight_reset hnext
  cases hu : b.uploadLocalFileToStorageAsync u (b.uploadAttrs u.force) with
  | none =>
    -- Not started: the attributes are gone, so there must not have been any.
    rw [hu] at hstart
    obtain ⟨hblank, hforce⟩ := hstart.resolve_left (by simp)
    rw [DocumentBroker.upload_refused hu]
    refine ⟨hinFlight, ?_, ?_, h.idle, fun _ => rfl⟩
    · show Attributes.Covers {} (b.ledger.owed ++ DocumentBroker.forcedAttrs u.force)
      rw [hforce, DocumentBroker.forcedAttrs_false, List.append_nil]
      exact h.current.of_blank hblank _
    · show Attributes.Covers (b.uploadAttrs u.force) b.ledger.taken
      rw [h.idle hnone]
      exact Attributes.covers_nil _
  | some started =>
    rw [DocumentBroker.upload_started hu]
    refine ⟨hinFlight, ?_, ?_, by simp, fun _ => rfl⟩
    · by_cases hverb : started.verb = .putFile
      · rw [if_pos hverb]
        exact Attributes.covers_nil _
      · rw [if_neg hverb]
        rcases hplain with hplain | hblank
        · exact absurd (DocumentBroker.verb_of_started hu hplain) hverb
        · exact h.current.of_blank hblank _
    · apply covers_uploadAttrs_forced
      by_cases hverb : started.verb = .putFile
      · rw [if_pos hverb]
        exact h.current
      · rw [if_neg hverb]
        exact Attributes.covers_nil _

theorem uploadResult (h : AttributesInv b) {result : UploadResult}
    (hok : AttributesCarried b (.uploadResult result)) :
    AttributesInv (b.uploadResult result) := by
  cases hu : b.uploadHttpSession with
  | none => rwa [DocumentBroker.uploadResult_none hu]
  | some upload =>
    obtain ⟨request, hr⟩ := Option.isSome_iff_exists.1 (h.request (by rw [hu]; rfl))
    by_cases hres : result = .ok
    · subst hres
      rw [DocumentBroker.uploadResult_ok hu hr]
      split <;>
        exact ⟨h.inFlight, h.current, Attributes.covers_nil _, fun _ => rfl, by simp⟩
    · rw [DocumentBroker.uploadResult_failed hu hr hres]
      refine ⟨h.inFlight, ?_, Attributes.covers_nil _, fun _ => rfl, by simp⟩
      -- What was being uploaded is owed again, before the saves since.
      rw [DocumentBroker.settleUpload]
      dsimp only
      rw [if_neg hres]
      apply h.current.merge_older h.last
      rw [AttributesCarried, hu] at hok
      simpa [hres] using hok

theorem act (h : AttributesInv b) {a : Action} (hok : AttributesCarried b a) :
    AttributesInv (b.act a) := by
  cases a with
  | sendUnoSave isAutosave extendedData forwarded =>
    exact h.sendUnoSave hok isAutosave extendedData forwarded
  | saveResult answer => exact h.saveResult answer
  | loseAnswer answer => exact h.loseAnswer answer
  | giveUpSave => exact h.giveUpSave
  | upload u => exact h.upload hok
  | uploadResult result => exact h.uploadResult hok
  | _ => exact ⟨h.inFlight, h.current, h.last, h.idle, h.request⟩

end AttributesInv

/-! ## Over a run -/

/-- **No attribute of a save that is not in storage is forgotten**, in any state of a run whose
actions all carry them. -/
theorem attributes_kept (c : Config) (es : List (Event × Env))
    (h : (run c es).Meets AttributesCarried) : (run c es).Always AttributesKept :=
  Run.always_of_meets (fun _ => AttributesInv.kept) (fun _ _ hinv hok => hinv.act hok)
    (attributesInv_init c) h

/-- A save with extended data whose upload fails and is tried again. -/
def uploadedAgain : List (Event × Env) :=
  [(.tick 1, {}), (.input 1 true, {}), (.save 1 "draft", {}),
    (.saveResponse 1 ⟨true, "", some true⟩, {}), (.uploadFinished .failed, {}),
    (.tick 6000000000, {}), (.poll, {}), (.uploadFinished .ok, {})]

theorem attributes_kept_uploadedAgain :
    (run (.withSessions [.editor 1]) uploadedAgain).Meets AttributesCarried ∧
      (run (.withSessions [.editor 1]) uploadedAgain).Always AttributesKept :=
  have h : (run (.withSessions [.editor 1]) uploadedAgain).Meets AttributesCarried := by
    decide +kernel
  ⟨h, attributes_kept (.withSessions [.editor 1]) uploadedAgain h⟩

/-- A modified document is saved and its upload cannot be started. -/
def uploadNotStarted : List (Event × Env) :=
  [(.tick 1, {}), (.input 1 true, {}), (.save 1 "", {}),
    (.saveResponse 1 ⟨true, "", none⟩, { reachable := false })]

/-- A modified document is saved, and while the save is in flight the version before is uploaded. -/
def uploadedBeforeAnswer : List (Event × Env) :=
  [(.save 1 "", {}), (.saveResponse 1 ⟨true, "", none⟩, {}), (.uploadFinished .ok, {}),
    (.tick 1, {}), (.input 1 true, {}), (.save 1 "", {}), (.saveToStorage 1 true, {})]

/-- The next upload does not say that the user modified the document, and neither does the one
after a save in flight. -/
theorem attributes_lost :
    ¬ AttributesKept (run (.withSessions [.editor 1]) uploadNotStarted).state ∧
      ¬ AttributesKept (run (.withSessions [.editor 1]) uploadedBeforeAnswer).state :=
  ⟨fun h => absurd ((h.passed (by decide +kernel) false).isUserModified (by decide +kernel))
      (by decide +kernel),
    fun h => absurd (h.next.isUserModified (by decide +kernel)) (by decide +kernel)⟩

end Oxool.Wsd
