import Oxool.Lib.Assoc
import Oxool.Wsd.TraceFile

/-!
# Snapshots in command traces (`wsd/TraceFile.hpp`)

A `TraceFileWriter` copies each document that a session opens, once for all sessions on it, and names the
copy in the trace. The map from urls to copies should have a document as long as there are sessions on it,
with their number, and the messages that load it should name the copy.

`newSession` looks a document up by the path of the decoded uri, and `endSession` by the path of the uri;
where these are two, the document stays. `writeIncoming` puts the copy's name into a string of its own, so
that the message is written as it was.

`Poco::URI` and `Util::RegexListMatcher` are parameters. An exception leaves `none`, or the writer as it was.
-/

set_option autoImplicit false

namespace Oxool.Wsd.TraceFile

open Oxool.Http (Bytes ascii)
open Oxool.Protocol

/-! ## The writer's map -/

/-- The code the writer runs on, and whether it takes snapshots. -/
structure Settings where
  takeSnapshot : Bool
  /-- `_filter.match`. -/
  filter : Bytes → Bool
  /-- `Poco::URI::decode`. -/
  decode : Bytes → Option Bytes
  /-- `getPath` of the `Poco::URI` of a text. -/
  getPath : Bytes → Option Bytes
  /-- `isRelative`, or the scheme is `file`. -/
  isLocal : Bytes → Bool
  /-- `getPath` after `normalize`. -/
  normalizedPath : Bytes → Bytes

/-- `SnapshotData`. -/
structure SnapshotData where
  snapshot : Bytes
  sessionCount : Nat

/-- The part of a `TraceFileWriter` that changes: `_urlToSnapshot`, and the calls of `writeLocked`. -/
structure TraceFileWriter where
  urlToSnapshot : List (Bytes × SnapshotData)
  written : List Written

/-- The time of a call, the process and the session. -/
structure Caller where
  time : Int
  id : Bytes
  sessionId : Bytes

namespace TraceFileWriter

variable (env : Settings)

def write (w : TraceFileWriter) (direction : Direction) (caller : Caller) (data : Bytes) : TraceFileWriter :=
  { w with written := w.written ++ [⟨direction, caller.time, caller.id, caller.sessionId, data⟩] }

/-- The url of a session's document in `_urlToSnapshot`. -/
def urlOf (uri : Bytes) : Option Bytes := (env.decode uri).bind env.getPath

/-- `newSession`, with the snapshot it has for the session. `copied` is the url of the copy that is made if
there is none yet. -/
def newSession (w : TraceFileWriter) (caller : Caller) (uri : Bytes) (copied : Option Bytes) :
    TraceFileWriter × Option Bytes :=
  if env.takeSnapshot then
    match urlOf env uri with
    | none => (w, none)
    | some url =>
      match w.urlToSnapshot.lookup url with
      | some data =>
        let w := { w with
          urlToSnapshot := Assoc.put url { data with sessionCount := data.sessionCount + 1 } w.urlToSnapshot }
        (w.write .event caller (ascii "NewSession: " ++ data.snapshot), some data.snapshot)
      | none =>
        match copied with
        | none => (w, none)
        | some snapshot =>
          let w := { w with urlToSnapshot := Assoc.put url ⟨snapshot, 1⟩ w.urlToSnapshot }
          (w.write .event caller (ascii "NewSession: " ++ snapshot), some snapshot)
  else (w.write .event caller (ascii "NewSession: " ++ uri), some uri)

/-- `endSession`. -/
def endSession (w : TraceFileWriter) (caller : Caller) (uri : Bytes) : TraceFileWriter :=
  match env.getPath uri with
  | none => w
  | some url =>
    match w.urlToSnapshot.lookup url with
    | some data =>
      let urlToSnapshot :=
        if data.sessionCount = 1 then w.urlToSnapshot.filter fun e => e.1 ≠ url
        else Assoc.put url { data with sessionCount := data.sessionCount - 1 } w.urlToSnapshot
      { w with urlToSnapshot := urlToSnapshot }.write .event caller (ascii "EndSession: " ++ data.snapshot)
    | none => w.write .event caller (ascii "EndSession: " ++ uri)

/-- The url of a message that loads a document. -/
def loadUrl (data : Bytes) : Option Bytes :=
  if matchPrefix (ascii "load") data then
    match (tokenize data blank)[1]? with
    | some token => tokenString (ascii "url") token
    | none => none
  else none

/-- The path that `writeIncoming` looks up. -/
def loadPath (url : Bytes) : Option Bytes :=
  (env.decode url).bind fun decodedUrl =>
    (env.getPath decodedUrl).map fun path =>
      if env.isLocal decodedUrl then env.normalizedPath decodedUrl else path

/-- The tokens of a message, each with a blank behind it. The name of the snapshot goes to a string that
`operator[]` returns, and is not among them. -/
def newData (data : Bytes) : Bytes := (tokenize data blank).flatMap (· ++ [blank])

/-- `writeIncoming`. -/
def writeIncoming (w : TraceFileWriter) (caller : Caller) (data : Bytes) : TraceFileWriter :=
  if env.filter data then
    let plain := if !matchPrefix (ascii "tileprocessed ") data then w.write .incoming caller data else w
    match loadUrl data with
    | none => plain
    | some url =>
      match loadPath env url with
      | none => w
      | some path =>
        match w.urlToSnapshot.lookup path with
        | some _ => w.write .incoming caller (newData data)
        | none => plain
  else w

end TraceFileWriter

/-! ## Sessions -/

/-- A session that is open: its uri, and the snapshot that `newSession` had for it. -/
structure Session where
  uri : Bytes
  snapshot : Bytes

/-- The writer and the sessions that are open. -/
structure Tracing where
  writer : TraceFileWriter
  opened : List Session

inductive Call
  | newSession (caller : Caller) (uri : Bytes) (copied : Option Bytes)
  | endSession (caller : Caller) (uri : Bytes)
  | writeIncoming (caller : Caller) (data : Bytes)

namespace Tracing

variable (env : Settings)

/-- Before the first call. -/
def start : Tracing := ⟨⟨[], []⟩, []⟩

/-- A session is open once `newSession` has returned, until `endSession` is called for it. -/
def step (t : Tracing) : Call → Tracing
  | .newSession caller uri copied =>
    match t.writer.newSession env caller uri copied with
    | (w, some snapshot) => ⟨w, t.opened ++ [⟨uri, snapshot⟩]⟩
    | (w, none) => ⟨w, t.opened⟩
  | .endSession caller uri =>
    ⟨t.writer.endSession env caller uri, t.opened.eraseP (·.uri == uri)⟩
  | .writeIncoming caller data => ⟨t.writer.writeIncoming env caller data, t.opened⟩

/-- A call of `endSession` is for a session that is open. -/
def Matches (t : Tracing) : Call → Prop
  | .endSession _ uri => uri ∈ t.opened.map Session.uri
  | _ => True

instance (t : Tracing) : (call : Call) → Decidable (t.Matches call)
  | .newSession _ _ _ => isTrue trivial
  | .endSession _ uri => inferInstanceAs (Decidable (uri ∈ t.opened.map Session.uri))
  | .writeIncoming _ _ => isTrue trivial

def Matched (t : Tracing) : List Call → Prop
  | [] => True
  | call :: calls => t.Matches call ∧ Matched (t.step env call) calls

instance decidableMatched (env : Settings) : (t : Tracing) → (calls : List Call) → Decidable (t.Matched env calls)
  | _, [] => isTrue trivial
  | t, call :: calls =>
    have := decidableMatched env (t.step env call) calls
    inferInstanceAs (Decidable (t.Matches call ∧ Matched env (t.step env call) calls))

/-- The sessions on a url. -/
def on (t : Tracing) (url : Bytes) : List Session :=
  t.opened.filter fun session => TraceFileWriter.urlOf env session.uri == some url

/-- **A url is mapped as long as there are sessions on it**, with their number, to the snapshot they have. -/
def Counted (t : Tracing) : Prop :=
  ∀ url, match t.writer.urlToSnapshot.lookup url with
    | none => t.on env url = []
    | some data => data.sessionCount = (t.on env url).length ∧ 0 < data.sessionCount ∧
        ∀ session ∈ t.on env url, session.snapshot = data.snapshot

/-- The paths that the url of a message stands for: the one of a session with this uri, and the one that
`writeIncoming` looks up. -/
def Names (url path : Bytes) : Prop :=
  TraceFileWriter.urlOf env url = some path ∨ TraceFileWriter.loadPath env url = some path

/-- A message as it should be written for a document that is mapped: with the url of the snapshot. -/
def Remapped (data : Bytes) (snapshot : Bytes) (w : Written) : Prop :=
  tokenize w.data blank = (tokenize data blank).set 1 (ascii "url=" ++ snapshot)

/-- A call that loads a document that is mapped writes the snapshot's url. -/
def LoadsSnapshot (t : Tracing) (call : Call) : Prop :=
  ∀ caller data url path snapshotData, call = .writeIncoming caller data →
    TraceFileWriter.loadUrl data = some url → Names env url path →
    t.writer.urlToSnapshot.lookup path = some snapshotData →
    ∃ more, (t.step env call).writer.written = t.writer.written ++ more ∧
      ∀ w ∈ more, Remapped data snapshotData.snapshot w

/-- What is claimed of a run. -/
def Traced (t : Tracing) : List Call → Prop
  | [] => t.Counted env
  | call :: calls => t.Counted env ∧ t.LoadsSnapshot env call ∧ Traced (t.step env call) calls

/-- The calls that do what they should: one that ends a session finds the url its start found, and one that
loads a document that is mapped has the snapshot's url already. -/
def Fits (t : Tracing) : Call → Prop
  | .newSession _ _ _ => True
  | .endSession _ uri => env.getPath uri = TraceFileWriter.urlOf env uri
  | .writeIncoming _ data => env.filter data = true →
    ∀ url path snapshotData, TraceFileWriter.loadUrl data = some url → Names env url path →
      t.writer.urlToSnapshot.lookup path = some snapshotData → url = snapshotData.snapshot

def AllFit (t : Tracing) : List Call → Prop
  | [] => True
  | call :: calls => t.Fits env call ∧ AllFit (t.step env call) calls

/-! ## Messages -/

/-- A message that loads a document starts with a token, which does not start with NUL. -/
theorem head_tokens {data : Bytes} (h : matchPrefix (ascii "load") data = true) :
    ∃ token tokens, tokenize data blank = token :: tokens ∧ token.head? ≠ some 0 := by
  obtain ⟨rest, rfl⟩ := List.isPrefixOf_iff_prefix.mp h
  have hload : ascii "load" = 108 :: [111, 97, 100] := by decide
  have hfirst : ((ascii "load" ++ rest).takeWhile (· != Http.lf)) =
      108 :: (([111, 97, 100] ++ rest).takeWhile (· != Http.lf)) := by
    rw [hload, List.cons_append, List.takeWhile_cons_of_pos (by decide)]
  obtain ⟨more, hmore⟩ := head_pieces (· == blank) (t := [108]) (List.cons_ne_nil _ _)
    (([111, 97, 100] ++ rest).takeWhile (· != Http.lf))
  have htokens : tokenize (ascii "load" ++ rest) blank =
      pieces (· == blank) [108] (([111, 97, 100] ++ rest).takeWhile (· != Http.lf)) := by
    rw [tokenize, if_neg (by rw [hload]; simp), hfirst, pieces, if_neg (by decide)]
    rfl
  rw [htokens]
  cases hpieces : pieces (· == blank) [108] (([111, 97, 100] ++ rest).takeWhile (· != Http.lf)) with
  | nil =>
    rw [hpieces] at hmore
    cases hmore
  | cons token tokens =>
    rw [hpieces] at hmore
    refine ⟨token, tokens, rfl, ?_⟩
    rw [Option.some.inj hmore]
    simp

theorem flatMap_blank (token : Bytes) (tokens : List Bytes) :
    (token :: tokens).flatMap (· ++ [blank]) = token ++ fields blank (tokens ++ [[]]) := by
  induction tokens generalizing token with
  | nil => simp [fields]
  | cons next tokens ih =>
    rw [List.flatMap_cons, ih, List.append_assoc]
    simp [fields]

/-- **A message that is put together again** has the tokens it had. -/
theorem tokenize_newData {data : Bytes} (h : matchPrefix (ascii "load") data = true) :
    tokenize (TraceFileWriter.newData data) blank = tokenize data blank := by
  obtain ⟨token, tokens, htokens, hhead⟩ := head_tokens h
  have hall : ∀ t ∈ token :: tokens, IsToken blank t := by
    intro t ht
    rw [← htokens] at ht
    exact isToken_of_mem_tokenize ht
  have hfilter : (tokens ++ [[]]).filter (· ≠ []) = tokens := by
    rw [List.filter_append, List.filter_eq_self.mpr]
    · simp
    · intro t ht
      simpa using (hall t (List.mem_cons_of_mem _ ht)).1
  rw [TraceFileWriter.newData, htokens, flatMap_blank,
    tokenize_fields_filter (by decide) hhead (hall token List.mem_cons_self), hfilter]
  intro t ht
  rcases List.mem_append.mp ht with ht | ht
  · exact (hall t (List.mem_cons_of_mem _ ht)).2
  · rw [List.mem_singleton.mp ht]
    intro b hb
    cases hb

theorem of_loadUrl {data url : Bytes} (h : TraceFileWriter.loadUrl data = some url) :
    matchPrefix (ascii "load") data = true ∧ (tokenize data blank)[1]? = some (ascii "url=" ++ url) := by
  rw [TraceFileWriter.loadUrl] at h
  split at h
  · next hfront =>
    refine ⟨hfront, ?_⟩
    split at h
    · next token htoken =>
      rw [tokenString] at h
      split at h
      · next hname =>
        obtain ⟨value, rfl⟩ := List.isPrefixOf_iff_prefix.mp hname
        have hlength : (ascii "url").length + 1 = (ascii "url" ++ [equalSign]).length := by decide
        rw [hlength, List.drop_left] at h
        rw [htoken, Option.some.inj h]
        rfl
      · cases h
    · cases h
  · cases h

/-- What is written for a message that loads a document has the tokens of the message. -/
theorem written_load (t : Tracing) (caller : Caller) {data url path : Bytes}
    (hload : TraceFileWriter.loadUrl data = some url) (hpath : Names env url path) :
    ∃ more, (t.writer.writeIncoming env caller data).written = t.writer.written ++ more ∧
      (∀ w ∈ more, tokenize w.data blank = tokenize data blank) ∧ (env.filter data = true → more ≠ []) := by
  obtain ⟨hfront, -⟩ := of_loadUrl hload
  have hplain : matchPrefix (ascii "tileprocessed ") data = false := by
    obtain ⟨rest, rfl⟩ := List.isPrefixOf_iff_prefix.mp hfront
    have hload : ascii "load" = 108 :: [111, 97, 100] := by decide
    have htile : ascii "tileprocessed " = 116 :: (ascii "ileprocessed ") := by decide
    rw [matchPrefix, hload, htile, List.cons_append, List.isPrefixOf]
    rfl
  have hlookup : ∃ path, TraceFileWriter.loadPath env url = some path := by
    rcases hpath with hpath | hpath
    · obtain ⟨decodedUrl, hdecode, hget⟩ := Option.bind_eq_some_iff.mp hpath
      rw [TraceFileWriter.loadPath, hdecode, Option.bind_some, hget]
      exact ⟨_, rfl⟩
    · exact ⟨path, hpath⟩
  obtain ⟨path', hpath'⟩ := hlookup
  rw [TraceFileWriter.writeIncoming]
  split
  · next hfilter =>
    rw [hload, hplain, Bool.not_false, if_pos rfl]
    dsimp only
    rw [hpath']
    dsimp only
    split
    · refine ⟨_, rfl, ?_, fun _ => List.cons_ne_nil _ _⟩
      intro w hw
      rw [List.mem_singleton.mp hw]
      exact tokenize_newData hfront
    · refine ⟨_, rfl, ?_, fun _ => List.cons_ne_nil _ _⟩
      intro w hw
      rw [List.mem_singleton.mp hw]
  · next hfilter =>
    refine ⟨[], (List.append_nil _).symm, ?_, fun h => absurd h hfilter⟩
    intro w hw
    cases hw

theorem remapped_iff {data url snapshot : Bytes} {w : Written} (hload : TraceFileWriter.loadUrl data = some url)
    (htokens : tokenize w.data blank = tokenize data blank) : Remapped data snapshot w ↔ url = snapshot := by
  obtain ⟨-, htoken⟩ := of_loadUrl hload
  obtain ⟨hlt, hget⟩ := List.getElem?_eq_some_iff.mp htoken
  rw [Remapped, htokens]
  constructor
  · intro heq
    rw [heq, List.getElem?_set_self hlt] at htoken
    exact (List.append_cancel_left (Option.some.inj htoken)).symm
  · intro heq
    rw [← heq, ← hget, List.set_getElem_self]

/-- **What a message that loads a document does**: it names the snapshot if it did before. -/
theorem loadsSnapshot_iff (t : Tracing) (caller : Caller) (data : Bytes) :
    t.LoadsSnapshot env (.writeIncoming caller data) ↔ t.Fits env (.writeIncoming caller data) := by
  constructor
  · intro hloads hfilter url path snapshotData hload hpath hlookup
    obtain ⟨more, hmore, hall⟩ := hloads caller data url path snapshotData rfl hload hpath hlookup
    obtain ⟨more', hmore', htokens, hne⟩ := written_load env t caller hload hpath
    have heq : more = more' := List.append_cancel_left (hmore.symm.trans hmore')
    obtain ⟨w, hw⟩ := List.exists_mem_of_ne_nil more' (hne hfilter)
    exact (remapped_iff hload (htokens w hw)).mp (hall w (heq ▸ hw))
  · intro hfits caller' data' url path snapshotData hcall hload hpath hlookup
    obtain ⟨rfl, rfl⟩ := Call.writeIncoming.inj hcall
    cases hfilter : env.filter data with
    | false =>
      refine ⟨[], ?_, fun w hw => by cases hw⟩
      rw [step, TraceFileWriter.writeIncoming, hfilter, if_neg Bool.false_ne_true, List.append_nil]
    | true =>
      obtain ⟨more, hmore, htokens, -⟩ := written_load env t caller hload hpath
      refine ⟨more, hmore, ?_⟩
      intro w hw
      exact (remapped_iff hload (htokens w hw)).mpr (hfits hfilter url path snapshotData hload hpath hlookup)

/-! ## Sessions that start -/

theorem counted_start : start.Counted env := by
  intro url
  rfl

/-- Every open session has a url. -/
def Known (t : Tracing) : Prop :=
  ∀ session ∈ t.opened, ∃ url, TraceFileWriter.urlOf env session.uri = some url

theorem on_append {w : TraceFileWriter} {opened : List Session} (session : Session) {url : Bytes}
    (hurl : TraceFileWriter.urlOf env session.uri = some url) (url' : Bytes) :
    on env ⟨w, opened ++ [session]⟩ url' =
      if url' = url then on env ⟨w, opened⟩ url' ++ [session] else on env ⟨w, opened⟩ url' := by
  rw [on, on, List.filter_append]
  split
  · next heq =>
    rw [heq, List.filter_cons_of_pos (by rw [hurl]; exact beq_self_eq_true _), List.filter_nil]
  · next hne =>
    rw [List.filter_cons_of_neg, List.filter_nil, List.append_nil]
    rw [hurl, beq_iff_eq]
    exact fun heq => hne (Option.some.inj heq).symm

/-- A session comes to its url, which has one more then. -/
theorem counted_newSession (htake : env.takeSnapshot = true) {t : Tracing} (h : t.Counted env) (caller : Caller)
    (uri : Bytes) (copied : Option Bytes) : (t.step env (.newSession caller uri copied)).Counted env := by
  rw [step, TraceFileWriter.newSession, if_pos htake]
  cases hurl : TraceFileWriter.urlOf env uri with
  | none => exact h
  | some url =>
    have hurlCounted := h url
    dsimp only
    cases hlookup : t.writer.urlToSnapshot.lookup url with
    | some data =>
      rw [hlookup] at hurlCounted
      obtain ⟨hcount, hpos, hsame⟩ := hurlCounted
      intro url'
      dsimp only [TraceFileWriter.write]
      rw [Assoc.lookup_put, on_append env ⟨uri, data.snapshot⟩ hurl]
      by_cases heq : url' = url
      · subst heq
        rw [if_pos rfl, if_pos rfl]
        refine ⟨?_, Nat.succ_pos _, ?_⟩
        · rw [List.length_append, List.length_singleton, hcount]
          rfl
        · intro session hsession
          rcases List.mem_append.mp hsession with hold | hnew
          · exact hsame session hold
          · rw [List.mem_singleton.mp hnew]
      · rw [if_neg heq, if_neg heq]
        exact h url'
    | none =>
      rw [hlookup] at hurlCounted
      cases copied with
      | none => exact h
      | some snapshot =>
        intro url'
        dsimp only [TraceFileWriter.write]
        rw [Assoc.lookup_put, on_append env ⟨uri, snapshot⟩ hurl]
        by_cases heq : url' = url
        · subst heq
          have hnil : on env ⟨t.writer, t.opened⟩ url' = [] := hurlCounted
          rw [if_pos rfl, if_pos rfl]
          refine ⟨?_, Nat.one_pos, ?_⟩
          · rw [List.length_append, List.length_singleton]
            exact congrArg (·.length + 1) hnil.symm
          · intro session hsession
            rcases List.mem_append.mp hsession with hold | hnew
            · have hmem : session ∈ on env ⟨t.writer, t.opened⟩ url' := hold
              rw [hnil] at hmem
              cases hmem
            · rw [List.mem_singleton.mp hnew]
        · rw [if_neg heq, if_neg heq]
          exact h url'

theorem known_newSession (htake : env.takeSnapshot = true) {t : Tracing} (h : t.Known env) (caller : Caller)
    (uri : Bytes) (copied : Option Bytes) : (t.step env (.newSession caller uri copied)).Known env := by
  rw [step, TraceFileWriter.newSession, if_pos htake]
  cases hurl : TraceFileWriter.urlOf env uri with
  | none => exact h
  | some url =>
    have hmore : ∀ w snapshot, Known env ⟨w, t.opened ++ [⟨uri, snapshot⟩]⟩ := by
      intro w snapshot session hsession
      rcases List.mem_append.mp hsession with hold | hnew
      · exact h session hold
      · rw [List.mem_singleton.mp hnew]
        exact ⟨url, hurl⟩
    dsimp only
    cases hlookup : t.writer.urlToSnapshot.lookup url with
    | some data => exact hmore _ _
    | none =>
      cases copied with
      | none => exact h
      | some snapshot => exact hmore _ _

/-! ## Sessions that end -/

theorem filter_eraseP_of_imp {α : Type} {p q : α → Bool} (h : ∀ a, q a = true → p a = true) (l : List α) :
    (l.eraseP q).filter p = (l.filter p).eraseP q := by
  rw [List.eraseP_filter]
  congr 2
  funext a
  cases hq : q a with
  | false => rfl
  | true => rw [h a hq]; rfl

theorem filter_eraseP_of_not {α : Type} {p q : α → Bool} (h : ∀ a, q a = true → p a = false) (l : List α) :
    (l.eraseP q).filter p = l.filter p := by
  induction l with
  | nil => rfl
  | cons a l ih =>
    cases hq : q a with
    | true =>
      rw [List.eraseP_cons_of_pos hq, List.filter_cons_of_neg]
      rw [h a hq]
      exact Bool.false_ne_true
    | false =>
      rw [List.eraseP_cons_of_neg (by rw [hq]; exact Bool.false_ne_true), List.filter_cons, List.filter_cons, ih]

variable {env} {t : Tracing} {uri url : Bytes}

theorem on_endSession_self (hurl : TraceFileWriter.urlOf env uri = some url) (caller : Caller) :
    (t.step env (.endSession caller uri)).on env url = (t.on env url).eraseP (·.uri == uri) := by
  apply filter_eraseP_of_imp
  intro session hsession
  rw [beq_iff_eq] at hsession ⊢
  rw [hsession, hurl]

theorem on_endSession_of_ne (hurl : TraceFileWriter.urlOf env uri ≠ some url) (caller : Caller) :
    (t.step env (.endSession caller uri)).on env url = t.on env url := by
  apply filter_eraseP_of_not
  intro session hsession
  rw [beq_iff_eq] at hsession
  rw [hsession]
  exact beq_false_of_ne hurl

/-- A session that ends leaves the other urls. -/
theorem lookup_endSession_of_ne (h : env.getPath uri ≠ some url) (caller : Caller) :
    (t.step env (.endSession caller uri)).writer.urlToSnapshot.lookup url =
      t.writer.urlToSnapshot.lookup url := by
  rw [step, TraceFileWriter.endSession]
  cases hpath : env.getPath uri with
  | none => rfl
  | some path =>
    have hne : url ≠ path := by
      rintro rfl
      exact h hpath
    dsimp only
    cases hlookup : t.writer.urlToSnapshot.lookup path with
    | none => rfl
    | some data =>
      dsimp only [TraceFileWriter.write]
      split
      · rw [Assoc.lookup_filter fun key => key ≠ path, if_pos (by simpa using hne)]
      · rw [Assoc.lookup_put, if_neg hne]

/-- The session is one of those on its url. -/
theorem exists_on (hopen : uri ∈ t.opened.map Session.uri)
    (hurl : TraceFileWriter.urlOf env uri = some url) : ∃ session ∈ t.on env url, (session.uri == uri) = true := by
  obtain ⟨session, hsession, hsame⟩ := List.mem_map.mp hopen
  refine ⟨session, List.mem_filter.mpr ⟨hsession, ?_⟩, ?_⟩
  · rw [hsame, hurl]
    exact beq_self_eq_true _
  · rw [hsame]
    exact beq_self_eq_true _

theorem length_on_endSession (hopen : uri ∈ t.opened.map Session.uri)
    (hurl : TraceFileWriter.urlOf env uri = some url) (caller : Caller) :
    ((t.step env (.endSession caller uri)).on env url).length = (t.on env url).length - 1 ∧
      0 < (t.on env url).length := by
  obtain ⟨session, hsession, hsame⟩ := exists_on hopen hurl
  rw [on_endSession_self hurl, List.length_eraseP_of_mem hsession hsame]
  exact ⟨rfl, List.length_pos_of_mem hsession⟩

/-- **A session that ends leaves its url**, where that is the url `endSession` looks up. -/
theorem counted_endSession (h : t.Counted env) (hopen : uri ∈ t.opened.map Session.uri)
    (hfits : env.getPath uri = TraceFileWriter.urlOf env uri) (caller : Caller) :
    (t.step env (.endSession caller uri)).Counted env := by
  intro url
  by_cases hurl : TraceFileWriter.urlOf env uri = some url
  · obtain ⟨hlength, hpos⟩ := length_on_endSession hopen hurl caller
    have hcounted := h url
    have hsubset : ∀ session ∈ (t.step env (.endSession caller uri)).on env url, session ∈ t.on env url := by
      intro session hsession
      rw [on_endSession_self hurl] at hsession
      exact List.eraseP_subset hsession
    cases hlookup : t.writer.urlToSnapshot.lookup url with
    | none =>
      rw [hlookup] at hcounted
      have hnil : t.on env url = [] := hcounted
      rw [hnil] at hpos
      cases hpos
    | some data =>
      rw [hlookup] at hcounted
      obtain ⟨hcount, hcountPos, hsame⟩ := hcounted
      by_cases hone : data.sessionCount = 1
      · have hafter : (t.step env (.endSession caller uri)).writer.urlToSnapshot.lookup url = none := by
          rw [step, TraceFileWriter.endSession, hfits, hurl]
          dsimp only
          rw [hlookup]
          dsimp only [TraceFileWriter.write]
          rw [if_pos hone, Assoc.lookup_filter fun key => key ≠ url, if_neg (by simp)]
        rw [hafter]
        apply List.eq_nil_of_length_eq_zero
        rw [hlength, ← hcount, hone]
      · have hafter : (t.step env (.endSession caller uri)).writer.urlToSnapshot.lookup url =
            some { data with sessionCount := data.sessionCount - 1 } := by
          rw [step, TraceFileWriter.endSession, hfits, hurl]
          dsimp only
          rw [hlookup]
          dsimp only [TraceFileWriter.write]
          rw [if_neg hone, Assoc.lookup_put, if_pos rfl]
        rw [hafter]
        refine ⟨?_, ?_, ?_⟩
        · rw [hlength, hcount]
        · show 0 < data.sessionCount - 1
          omega
        · exact fun session hsession => hsame session (hsubset session hsession)
  · rw [on_endSession_of_ne hurl, lookup_endSession_of_ne (by rw [hfits]; exact hurl)]
    exact h url

/-- **Only there**: otherwise the url has one session too many. -/
theorem fits_of_counted_endSession (h : t.Counted env) (hknown : t.Known env)
    (hopen : uri ∈ t.opened.map Session.uri) {caller : Caller}
    (hafter : (t.step env (.endSession caller uri)).Counted env) :
    env.getPath uri = TraceFileWriter.urlOf env uri := by
  obtain ⟨session, hsession, hsame⟩ := List.mem_map.mp hopen
  obtain ⟨url, hurl⟩ := hknown session hsession
  rw [hsame] at hurl
  rw [hurl]
  by_contra hne
  obtain ⟨hlength, hpos⟩ := length_on_endSession hopen hurl caller
  have hbefore := h url
  have hcounted := hafter url
  rw [lookup_endSession_of_ne hne] at hcounted
  cases hlookup : t.writer.urlToSnapshot.lookup url with
  | none =>
    rw [hlookup] at hbefore
    have hnil : t.on env url = [] := hbefore
    rw [hnil] at hpos
    cases hpos
  | some data =>
    rw [hlookup] at hbefore hcounted
    have hcount := hbefore.1
    have hcountAfter := hcounted.1
    omega

theorem known_endSession (h : t.Known env) (caller : Caller) : (t.step env (.endSession caller uri)).Known env :=
  fun session hsession => h session (List.eraseP_subset hsession)

/-! ## Messages and sessions -/

theorem urlToSnapshot_writeIncoming (w : TraceFileWriter) (caller : Caller) (data : Bytes) :
    (w.writeIncoming env caller data).urlToSnapshot = w.urlToSnapshot := by
  have hplain : (if !matchPrefix (ascii "tileprocessed ") data then w.write .incoming caller data else w).urlToSnapshot =
      w.urlToSnapshot := by
    split
    · rfl
    · rfl
  rw [TraceFileWriter.writeIncoming]
  split
  · dsimp only
    split
    · exact hplain
    · split
      · rfl
      · split
        · rfl
        · exact hplain
  · rfl

theorem counted_writeIncoming (h : t.Counted env) (caller : Caller) (data : Bytes) :
    (t.step env (.writeIncoming caller data)).Counted env := by
  intro url
  have hsame := h url
  rw [step]
  dsimp only
  rw [urlToSnapshot_writeIncoming]
  exact hsame

/-- A call that fits does what it should, and no other does. -/
theorem step_iff (htake : env.takeSnapshot = true) (h : t.Counted env) (hknown : t.Known env) {call : Call}
    (hopen : t.Matches call) :
    (t.LoadsSnapshot env call ∧ (t.step env call).Counted env ↔ t.Fits env call) ∧
      (t.step env call).Known env := by
  cases call with
  | newSession caller uri copied =>
    refine ⟨⟨fun _ => trivial, fun _ => ⟨?_, counted_newSession env htake h caller uri copied⟩⟩,
      known_newSession env htake hknown caller uri copied⟩
    intro caller' data url path snapshotData hcall
    cases hcall
  | endSession caller uri =>
    refine ⟨⟨fun hstep => fits_of_counted_endSession h hknown hopen hstep.2,
      fun hfits => ⟨?_, counted_endSession h hopen hfits caller⟩⟩, known_endSession hknown caller⟩
    intro caller' data url path snapshotData hcall
    cases hcall
  | writeIncoming caller data =>
    refine ⟨?_, hknown⟩
    rw [loadsSnapshot_iff]
    exact ⟨fun hstep => hstep.1, fun hfits => ⟨hfits, counted_writeIncoming h caller data⟩⟩

/-- The run. -/
theorem traced_iff_of_counted (htake : env.takeSnapshot = true) (h : t.Counted env) (hknown : t.Known env)
    {calls : List Call} (hmatched : t.Matched env calls) : t.Traced env calls ↔ t.AllFit env calls := by
  induction calls generalizing t with
  | nil => exact ⟨fun _ => trivial, fun _ => h⟩
  | cons call calls ih =>
    obtain ⟨hstep, hknown'⟩ := step_iff htake h hknown hmatched.1
    constructor
    · intro htraced
      obtain ⟨-, hloads, hmore⟩ := htraced
      have hafter : (t.step env call).Counted env := by
        cases calls with
        | nil => exact hmore
        | cons next calls => exact hmore.1
      exact ⟨hstep.mp ⟨hloads, hafter⟩, (ih hafter hknown' hmatched.2).mp hmore⟩
    · intro hfits
      obtain ⟨hloads, hafter⟩ := hstep.mpr hfits.1
      exact ⟨h, hloads, (ih hafter hknown' hmatched.2).mpr hfits.2⟩

/-- **Snapshots are counted and named** in the runs whose calls fit: the ends of sessions find the urls their
starts found, and the messages that load a document name its snapshot already. -/
theorem traced_iff (env : Settings) (htake : env.takeSnapshot = true) (calls : List Call)
    (hmatched : start.Matched env calls) : start.Traced env calls ↔ start.AllFit env calls := by
  apply traced_iff_of_counted htake (counted_start env)
  · intro session hsession
    cases hsession
  · exact hmatched

/-! ## A document and its encoded uri -/

def plainUri : Bytes := ascii "file:///tmp/a.odt"

def encodedUri : Bytes := ascii "file%3A%2F%2F%2Ftmp%2Fa.odt"

def copyUri : Bytes := ascii "file:///tmp/trace/a_20240101_12-00-00.odt"

/-- What the libraries do with the three uris. -/
def someSettings : Settings where
  takeSnapshot := true
  filter := fun _ => true
  decode := fun uri => if uri = encodedUri then some plainUri else some uri
  getPath := fun uri =>
    if uri = encodedUri then some plainUri
    else if uri = plainUri then some (ascii "/tmp/a.odt")
    else if uri = copyUri then some (ascii "/tmp/trace/a_20240101_12-00-00.odt")
    else none
  isLocal := fun _ => true
  normalizedPath := fun uri =>
    if uri = plainUri then ascii "/tmp/a.odt" else ascii "/tmp/trace/a_20240101_12-00-00.odt"

def someCaller : Caller := ⟨1000, ascii "17", ascii "0001"⟩

/-- Two sessions, one after the other, on a document whose uri is not encoded. -/
def plainSessions : List Call :=
  [.newSession someCaller plainUri (some copyUri), .newSession someCaller plainUri none,
    .endSession someCaller plainUri, .endSession someCaller plainUri]

theorem traced_iff_plainSessions :
    start.Traced someSettings plainSessions ↔ start.AllFit someSettings plainSessions :=
  traced_iff someSettings rfl plainSessions (by decide)

/-- A session on an encoded uri leaves its url behind, and a message that loads a document is written as it
is. -/
theorem not_traced :
    ¬ start.Traced someSettings [.newSession someCaller encodedUri (some copyUri), .endSession someCaller encodedUri] ∧
      ¬ start.Traced someSettings [.newSession someCaller plainUri (some copyUri),
        .writeIncoming someCaller (ascii "load url=" ++ plainUri)] := by
  have hknown : start.Known someSettings := fun session hsession => by cases hsession
  constructor
  · intro htraced
    have hfits := (traced_iff_of_counted rfl (counted_start someSettings) hknown (by decide)).mp htraced
    have hpath : someSettings.getPath encodedUri = TraceFileWriter.urlOf someSettings encodedUri := hfits.2.1
    exact absurd hpath (by decide)
  · intro htraced
    have hfits := (traced_iff_of_counted rfl (counted_start someSettings) hknown (by decide)).mp htraced
    have hsnapshot := hfits.2.1 rfl plainUri (ascii "/tmp/a.odt") ⟨copyUri, 1⟩ (by decide) (.inl (by decide)) rfl
    exact absurd hsnapshot (by decide)

end Tracing

end Oxool.Wsd.TraceFile
