import EsmCompletion.Proofs.Log.Lines
import EsmCompletion.Proofs.Session.Frame

/-! # What the log says about requests

With the filter that is used by default, the lines that a request of the editor adds to the log are
told by its buffer, its locations and the files, in this order: that the buffer was never saved; the
missing modules, one for each location before the first that fails; and the fault of that one. Each
location is judged on its own, from the cache as it was before the request. -/

namespace EsmCompletion

/-- Whether there is nothing where a path leads. -/
def FileTree.isMissing (tree : FileTree) (path : Path) : Bool :=
  match tree.find path with
  | .error .notFound => true
  | _ => false

/-- The tree with the entry that another one has at a location, if it has one. -/
def FileTree.keeping (tree : FileTree) (location : Location) (other : FileTree) : FileTree :=
  match other.entryAt? location with
  | some entry => tree.set location entry
  | none => tree

theorem FileTree.Holds.keeping {tree : FileTree} {location : Location} {bytes : ByteArray}
    (h : tree.Holds location bytes) (other : FileTree) :
    (other.keeping location tree).Holds location bytes := by
  obtain ⟨modified, he⟩ := h
  refine ⟨modified, ?_⟩
  rw [FileTree.keeping, he, entryAt?_set _ _ (ne_root_of_file he), if_pos rfl]

/-- The fault that an answer reports. -/
def faultOf? {α : Type} : Except ModuleFault α → Option ModuleFault
  | .error fault => some fault
  | .ok _ => none

theorem faultOf?_map {α β : Type} (f : α → β) (answer : Except ModuleFault α) :
    faultOf? (answer.map f) = faultOf? answer := by
  cases answer <;> rfl

namespace ModuleCache

open Log (Filter)

/-! ## Fetches -/

theorem missing_of_isMissing {tree : FileTree} {path : Path} (h : tree.isMissing path = true)
    (cache : ModuleCache) : cache.exports tree path = cache.missing path := by
  unfold FileTree.isMissing at h
  unfold exports
  split at h
  · rename_i hf
    rw [hf]
  · cases h

/-- Of a fetch nothing is logged but that the module is missing. -/
theorem events_exports (cache : ModuleCache) (tree : FileTree) (path : Path) :
    (cache.exports tree path).events.filter Filter.default.passes =
      if tree.isMissing path then [.moduleMissing path] else [] := by
  unfold FileTree.isMissing
  have hfetch := fetch_exports cache tree path
  generalize cache.exports tree path = outcome at hfetch
  cases hfetch with
  | missing hf => simp [hf, Log.passes_default, Log.Event.level, Log.Level.rank]
  | undated hf hne =>
    rename_i fault
    cases fault <;> simp_all
  | hit hf | unreadable hf =>
    simp [hf, Log.passes_default, Log.Event.level, Log.Level.rank]
  | malformed hx | parsed hx =>
    obtain ⟨bytes, hf, -⟩ := hx
    simp [hf, Log.passes_default, Log.Event.level, Log.Level.rank]

theorem events_fetchAll (tree : FileTree) (paths : List Path) (cache : ModuleCache) :
    (fetchAll tree paths cache).events.filter Filter.default.passes =
      (paths.filter tree.isMissing).map .moduleMissing := by
  induction paths generalizing cache with
  | nil => rfl
  | cons path rest ih =>
    rw [fetchAll, List.filter_append, events_exports, ih, List.filter_cons]
    split <;> rfl

/-! ## Locations -/

variable {tree : FileTree} {aliases : Aliases} {buffer : Buffer}

/-- The fault that a location is answered with when nothing else is asked for. -/
def faultAt? (cache : ModuleCache) (tree : FileTree) (aliases : Aliases) (buffer : Buffer)
    (location : Nat) : Option ModuleFault :=
  faultOf? (suggestAll tree aliases buffer [location] cache).answer

/-- The module that a location asks for, if it is missing. -/
def missingAt? (tree : FileTree) (aliases : Aliases) (buffer : Buffer) (location : Nat) :
    Option Path :=
  (Uncached.module? aliases (buffer.lineAt location)).filter tree.isMissing

theorem faultOf?_suggestAll_of_none {location : Nat}
    (h : Uncached.module? aliases (buffer.lineAt location) = none) (rest : List Nat)
    (cache : ModuleCache) :
    faultOf? (suggestAll tree aliases buffer (location :: rest) cache).answer =
      faultOf? (suggestAll tree aliases buffer rest cache).answer := by
  rw [suggestAll_cons]
  unfold Uncached.module? at h
  cases hl : DottedWord.ofLine? (buffer.lineAt location) with
  | none => rfl
  | some typed =>
    have hg : aliases.get? typed.word = none := by simpa [hl] using h
    simp [suggestFor, hg, faultOf?_map]

theorem faultOf?_suggestAll_of_some {location : Nat} {path : Path}
    (h : Uncached.module? aliases (buffer.lineAt location) = some path) (rest : List Nat)
    (cache : ModuleCache) :
    faultOf? (suggestAll tree aliases buffer (location :: rest) cache).answer =
      (faultOf? (cache.exports tree path).answer).or
        (faultOf? (suggestAll tree aliases buffer rest
          (cache.exports tree path).cache).answer) := by
  rw [suggestAll_cons]
  obtain ⟨typed, hl, hg⟩ := Option.bind_eq_some_iff.1 h
  simp only [hl, suggestFor, hg, Outcome.map]
  cases (cache.exports tree path).answer with
  | error fault => rfl
  | ok exports => exact faultOf?_map _ _

theorem faultAt?_of_none {location : Nat}
    (h : Uncached.module? aliases (buffer.lineAt location) = none) (cache : ModuleCache) :
    cache.faultAt? tree aliases buffer location = none :=
  faultOf?_suggestAll_of_none h [] cache

theorem faultAt?_of_some {location : Nat} {path : Path}
    (h : Uncached.module? aliases (buffer.lineAt location) = some path) (cache : ModuleCache) :
    cache.faultAt? tree aliases buffer location = faultOf? (cache.exports tree path).answer := by
  rw [faultAt?, faultOf?_suggestAll_of_some h]
  exact Option.or_none

variable (hn : ∀ word path, aliases.get? word = some path → path.IsNormal)

include hn

theorem isNormal_of_module? {line : String} {path : Path}
    (h : Uncached.module? aliases line = some path) : path.IsNormal := by
  obtain ⟨typed, -, hg⟩ := Option.bind_eq_some_iff.1 h
  exact hn typed.word path hg

/-- The fault of a request is that of the first location that fails on its own. -/
theorem faultOf?_suggestAll (locations : List Nat) {cache other : ModuleCache}
    (h : Alike tree cache other) :
    faultOf? (suggestAll tree aliases buffer locations other).answer =
      locations.findSome? (cache.faultAt? tree aliases buffer) := by
  -- what was fetched for the locations before leaves a cache that answers alike
  induction locations generalizing other with
  | nil => rfl
  | cons location rest ih =>
    rw [List.findSome?_cons]
    cases hm : Uncached.module? aliases (buffer.lineAt location) with
    | none =>
      rw [faultOf?_suggestAll_of_none hm, faultAt?_of_none hm]
      exact ih h
    | some path =>
      have hpath := isNormal_of_module? hn hm
      rw [faultOf?_suggestAll_of_some hm, faultAt?_of_some hm, ← h path hpath,
        ih (h.trans (alike_exports other hpath))]
      cases faultOf? (other.exports tree path).answer <;> rfl

/-- The missing modules that are fetched are those of the locations before the first that fails on
its own. -/
theorem filter_isMissing_fetched (locations : List Nat) {cache other : ModuleCache}
    (h : Alike tree cache other) :
    (fetched tree aliases buffer locations other).filter tree.isMissing =
      (locations.takeWhile fun location =>
        (cache.faultAt? tree aliases buffer location).isNone).filterMap
          (missingAt? tree aliases buffer) := by
  induction locations generalizing other with
  | nil => rfl
  | cons location rest ih =>
    rw [fetched, List.takeWhile_cons]
    cases hm : Uncached.module? aliases (buffer.lineAt location) with
    | none =>
      rw [faultAt?_of_none hm]
      simp [missingAt?, hm, ih h]
    | some path =>
      have hpath := isNormal_of_module? hn hm
      have hrest := ih (h.trans (alike_exports other hpath))
      rw [faultAt?_of_some hm, ← h path hpath]
      cases hanswer : (other.exports tree path).answer with
      | error fault =>
        have hthere : tree.isMissing path = false := by
          by_contra hmissing
          rw [missing_of_isMissing (by simpa using hmissing)] at hanswer
          cases hanswer
        simp [faultOf?, hanswer, hthere]
      | ok exports =>
        have hat : missingAt? tree aliases buffer location =
            if tree.isMissing path then some path else none := by
          simp [missingAt?, hm, Option.filter]
        simp only [hanswer, faultOf?, Option.isNone_none, if_true, List.filter_cons, hrest,
          List.filterMap_cons, hat]
        split <;> rfl

end ModuleCache

/-! ## Requests -/

/-- What the log is told about a request. -/
inductive Notice where
  | unsaved
  | missing (path : Path)
  | failed (fault : ModuleFault)

def Notice.line : Notice → String
  | unsaved =>
    "WARN resolve_js_modules::completion: buffer has no file name, imports cannot be resolved"
  | missing path => "WARN resolve_js_modules::cache: File not found path=" ++ path.text
  | failed fault =>
    "ERROR resolve_js_modules::completion: completion request failed error=" ++ fault.message

/-- The event that a notice is written for. -/
def Notice.event : Notice → Log.Event
  | unsaved => .unsavedBuffer
  | missing path => .moduleMissing path
  | failed fault => .requestFailed fault

theorem Notice.line_event (notice : Notice) : notice.event.line = notice.line := by
  cases notice with
  | unsaved => decide +kernel
  | missing path =>
    simp only [event, Log.Event.line, Log.Event.level, Log.Level.name, Log.Event.target,
      Log.Event.message, Log.Event.fields, List.map_cons, List.map_nil, String.join_cons,
      String.join_nil, String.append_empty, ← String.append_assoc]
    refine congrArg (fun head => head ++ path.text) ?_
    decide +kernel
  | failed fault =>
    simp only [event, Log.Event.line, Log.Event.level, Log.Level.name, Log.Event.target,
      Log.Event.message, Log.Event.fields, List.map_cons, List.map_nil, String.join_cons,
      String.join_nil, String.append_empty, ← String.append_assoc]
    refine congrArg (fun head => head ++ fault.message) ?_
    decide +kernel

namespace Session

open Log (Filter)
open CommandLine (terminated)

/-- The notices of a request of the editor: that the buffer was never saved; or, for a source file,
the missing modules of the locations before the first that fails, and the fault of that one. -/
def notices (session : Session) (tree : FileTree) (buffer : Buffer) (locations : List Nat) :
    List Notice :=
  let faultAt? := session.cache.faultAt? tree (session.aliases buffer) buffer
  match buffer.file with
  | none => [.unsaved]
  | some file =>
    if session.configuration.isSource file then
      ((locations.takeWhile fun location => (faultAt? location).isNone).filterMap
          (ModuleCache.missingAt? tree (session.aliases buffer) buffer)).map .missing ++
        (locations.findSome? faultAt?).toList.map .failed
    else []

variable {session : Session} {tree : FileTree} {buffer : Buffer}

theorem isNormal_alias (session : Session) (buffer : Buffer) (word : String) (path : Path)
    (h : (session.aliases buffer).get? word = some path) : path.IsNormal :=
  Imports.isNormal_of_get? h

theorem notices_of_accepts (h : session.accepts buffer = true) (locations : List Nat) :
    session.notices tree buffer locations =
      ((locations.takeWhile fun location =>
          (session.cache.faultAt? tree (session.aliases buffer) buffer location).isNone).filterMap
          (ModuleCache.missingAt? tree (session.aliases buffer) buffer)).map .missing ++
        (faultOf? (session.suggestions tree buffer locations).answer).toList.map .failed := by
  have hfault : faultOf? (session.suggestions tree buffer locations).answer = _ :=
    ModuleCache.faultOf?_suggestAll (session.isNormal_alias buffer) locations (.refl tree _)
  rw [hfault]
  unfold accepts at h
  unfold notices
  cases hf : buffer.file with
  | none => simp [hf] at h
  | some file =>
    have hs : session.configuration.isSource file = true := by simpa [hf] using h
    simp [hs]

theorem notices_of_not_accepts (h : session.accepts buffer = false) (locations : List Nat) :
    session.notices tree buffer locations = if buffer.file.isNone then [.unsaved] else [] := by
  unfold accepts at h
  unfold notices
  cases hf : buffer.file with
  | none => rfl
  | some file =>
    have hs : session.configuration.isSource file = false := by simpa [hf] using h
    simp [hs]

/-- The notices of a request are the events of it that are logged by default. -/
theorem filter_events_query (locations : List Nat) :
    (session.query tree buffer locations).events.filter Filter.default.passes =
      (session.notices tree buffer locations).map Notice.event := by
  cases h : session.accepts buffer with
  | false =>
    rw [query_of_not_accepts h, notices_of_not_accepts h]
    split <;> simp [Log.passes_default, Log.Event.level, Log.Level.rank, Notice.event]
  | true =>
    have hscan : (scanEvents buffer).filter Filter.default.passes = [] := by
      unfold scanEvents
      split <;> simp [Log.passes_default, Log.Event.level, Log.Level.rank]
    have hmissing : (session.suggestions tree buffer locations).events.filter
        Filter.default.passes = _ :=
      congrArg (List.filter Filter.default.passes)
        (congrArg Outcome.events (session.suggestions_eq tree buffer locations))
    rw [List.filter_append, hscan, (ModuleCache.suggestAll_eq_fetchAll locations session.cache).2,
      ModuleCache.events_fetchAll, ModuleCache.filter_isMissing_fetched
        (session.isNormal_alias buffer) locations (.refl tree session.cache)] at hmissing
    rw [query_of_accepts h, notices_of_accepts h]
    generalize session.suggestions tree buffer locations = outcome at hmissing
    obtain ⟨cache, answer, events⟩ := outcome
    cases answer with
    | ok suggestions => simp [hmissing, faultOf?, Function.comp_def, Notice.event]
    | error fault =>
      simp [hmissing, faultOf?, Function.comp_def, Notice.event, Log.passes_default,
        Log.Event.level, Log.Level.rank]

/-- A request has no answer exactly if the log is told why, or the buffer is in another language. -/
theorem answer_query_eq_none_iff (locations : List Nat) :
    (session.query tree buffer locations).answer = none ↔
      .unsaved ∈ session.notices tree buffer locations ∨
        (∃ fault, .failed fault ∈ session.notices tree buffer locations) ∨
        ∃ file, buffer.file = some file ∧ session.configuration.isSource file = false := by
  cases h : session.accepts buffer with
  | false =>
    rw [query_of_not_accepts h, notices_of_not_accepts h]
    unfold accepts at h
    cases hf : buffer.file with
    | none => simp
    | some file => simpa [hf] using h
  | true =>
    have hsource : ∀ file, buffer.file = some file →
        session.configuration.isSource file = true := by
      intro file hf
      simpa [accepts, hf] using h
    rw [query_of_accepts h, notices_of_accepts h]
    generalize session.suggestions tree buffer locations = outcome
    obtain ⟨cache, answer, events⟩ := outcome
    cases answer with
    | ok suggestions => simpa [faultOf?] using hsource
    | error fault => simp [faultOf?]

/-! ## Runs -/

/-- One thing that happens while the requests of a session are logged. A change may leave any files
behind, but it does not touch the log. -/
inductive Turn where
  | change (tree : FileTree)
  | query (buffer : Buffer) (locations : List Nat)

namespace Moment

/-- What comes of a request of the editor while its events are written to a log at a location, which
is kept with the default filter. -/
def logged (log : Location) (moment : Moment) (buffer : Buffer) (locations : List Nat) :
    Outcome (Option (List Suggestion)) :=
  moment.session.queryAlong ((Log.Journal.mk .default log).writeAll moment.tree) buffer locations

/-- What a turn leaves: the session, and the files with the log. -/
def turn (log : Location) (moment : Moment) : Turn → Moment
  | .change tree => { moment with tree := tree.keeping log moment.tree }
  | .query buffer locations =>
    let outcome := moment.logged log buffer locations
    ⟨(Log.Journal.mk .default log).writeAll moment.tree outcome.events,
      moment.session.after outcome⟩

def turns (log : Location) (moment : Moment) (run : List Turn) : Moment :=
  run.foldl (turn log) moment

/-- The notices of all requests of a run. -/
def noticesOf (log : Location) (moment : Moment) : List Turn → List Notice
  | [] => []
  | .change tree :: rest => (moment.turn log (.change tree)).noticesOf log rest
  | .query buffer locations :: rest =>
    moment.session.notices moment.tree buffer locations ++
      (moment.turn log (.query buffer locations)).noticesOf log rest

/-- The log is none of the modules that the requests of a run read. -/
def LogApart (log : Location) (moment : Moment) (run : List Turn) : Prop :=
  ∀ before buffer locations later, run = before ++ .query buffer locations :: later →
    let now := moment.turns log before
    ∀ path ∈ now.session.fetched now.tree (.query buffer locations), now.tree.Avoids log path

variable {log : Location} {moment : Moment} {bytes : ByteArray}

theorem LogApart.tail {turn : Turn} {rest : List Turn} (ha : moment.LogApart log (turn :: rest)) :
    (moment.turn log turn).LogApart log rest := by
  rintro before buffer locations later rfl
  exact ha (turn :: before) buffer locations later rfl

theorem LogApart.of_append {before after : List Turn}
    (ha : moment.LogApart log (before ++ after)) : moment.LogApart log before := by
  rintro first buffer locations later rfl
  exact ha first buffer locations (later ++ after) (by simp)

/-- A request that does not read the log is answered as if it were not written. -/
theorem logged_eq {buffer : Buffer} {locations : List Nat}
    (ha : ∀ path ∈ moment.session.fetched moment.tree (.query buffer locations),
      moment.tree.Avoids log path) :
    moment.logged log buffer locations = moment.session.query moment.tree buffer locations :=
  Session.queryAlong_eq (Log.Journal.keepsBesides (.refl (some log) moment.tree)) ha

/-- The lines of some notices. -/
def linesOf (notices : List Notice) : String := terminated (notices.map Notice.line)

theorem linesOf_append (notices more : List Notice) :
    linesOf (notices ++ more) = linesOf notices ++ linesOf more := by
  simp [linesOf, CommandLine.terminated_append]

/-- A request adds the lines of its notices to the log, and no others. -/
theorem holds_query (h : moment.tree.Holds log bytes) {buffer : Buffer} {locations : List Nat}
    (ha : ∀ path ∈ moment.session.fetched moment.tree (.query buffer locations),
      moment.tree.Avoids log path) :
    (moment.turn log (.query buffer locations)).tree.Holds log
      (bytes ++ (linesOf (moment.session.notices moment.tree buffer locations)).toUTF8) := by
  have hwritten := Log.Journal.holds_writeAll h .default
    (moment.session.query moment.tree buffer locations).events
  have hlines : Log.addedText .default (moment.session.query moment.tree buffer locations).events =
      linesOf (moment.session.notices moment.tree buffer locations) := by
    rw [Log.addedText, filter_events_query, linesOf, List.map_map]
    exact congrArg terminated (List.map_congr_left fun notice _ => notice.line_event)
  rw [hlines, ← logged_eq ha] at hwritten
  exact hwritten

theorem holds_turns (run : List Turn) (h : moment.tree.Holds log bytes)
    (ha : moment.LogApart log run) :
    (moment.turns log run).tree.Holds log
      (bytes ++ (linesOf (moment.noticesOf log run)).toUTF8) := by
  induction run generalizing moment bytes with
  | nil =>
    rw [show (linesOf (moment.noticesOf log [])).toUTF8 = ByteArray.empty from rfl,
      ByteArray.append_empty]
    exact h
  | cons turn rest ih =>
    cases turn with
    | change tree => exact ih (h.keeping tree) ha.tail
    | query buffer locations =>
      have hrest := ih (holds_query h (ha [] buffer locations rest rfl)) ha.tail
      rw [ByteArray.append_assoc] at hrest
      rw [noticesOf, linesOf_append, String.toUTF8, String.toByteArray_append]
      exact hrest

end Moment

/-- What the log says about the requests of a run is exact, if it is none of the modules that they
read. The log grows by the lines of their notices, request by request, whatever else happens to the
files; and a request has no answer exactly if its notices say that the buffer was never saved or
report a fault, or if the buffer is in another language. -/
theorem log_of_requests_exact (log : Location) (start : Moment) (run : List Turn)
    (bytes : ByteArray) (h : start.tree.Holds log bytes) (ha : start.LogApart log run) :
    (start.turns log run).tree.Holds log
        (bytes ++ (Moment.linesOf (start.noticesOf log run)).toUTF8) ∧
      ∀ before buffer locations later, run = before ++ .query buffer locations :: later →
        let moment := start.turns log before
        (∃ bytes, moment.tree.Holds log bytes ∧
          (moment.turn log (.query buffer locations)).tree.Holds log (bytes ++
            (Moment.linesOf (moment.session.notices moment.tree buffer locations)).toUTF8)) ∧
        ((moment.logged log buffer locations).answer = none ↔
          .unsaved ∈ moment.session.notices moment.tree buffer locations ∨
            (∃ fault, .failed fault ∈ moment.session.notices moment.tree buffer locations) ∨
            ∃ file, buffer.file = some file ∧
              moment.session.configuration.isSource file = false) := by
  refine ⟨Moment.holds_turns run h ha, ?_⟩
  intro before buffer locations later hrun moment
  have hapart : ∀ path ∈ moment.session.fetched moment.tree (.query buffer locations),
      moment.tree.Avoids log path := ha before buffer locations later hrun
  have hbefore := Moment.holds_turns before h (hrun ▸ ha).of_append
  refine ⟨⟨_, hbefore, Moment.holds_query hbefore hapart⟩, ?_⟩
  rw [Moment.logged_eq hapart]
  exact answer_query_eq_none_iff locations

/-- A directory stands in place of one module, and another one is missing. -/
def brokenModules : FileTree :=
  ((FileTree.oneModule "export let a = 1;" ⟨5, 0⟩).set ["b.js", "m"] ⟨.directory, ⟨6, 0⟩⟩).set
    ["log"] ⟨.file "begun\n".toUTF8, ⟨7, 0⟩⟩

/-- A buffer that imports both of these. -/
def importingBoth : Buffer :=
  ⟨"import * as B from './b.js'\nimport * as C from './c.js'\nC.\nB.", some ⟨"/m/main.js"⟩⟩

/-- A buffer that was never saved, and one that asks for a missing module twice and for a directory
in between. -/
def brokenRequests : List Turn :=
  [.query ⟨"A.", none⟩ [2], .query importingBoth [58, 61, 58]]

/-- What these requests add to the log. -/
def brokenLines : String :=
  "WARN resolve_js_modules::completion: buffer has no file name, imports cannot be resolved\n" ++
    "WARN resolve_js_modules::cache: File not found path=/m/c.js\n" ++
    "ERROR resolve_js_modules::completion: completion request failed " ++
    "error=Failed to read /m/b.js: Is a directory (os error 21)\n"

/-- The first of these requests reads nothing, and neither path of the second leads to the log. -/
theorem logApart_brokenRequests :
    Moment.LogApart ["log"] ⟨brokenModules, new {}⟩ brokenRequests := by
  intro before buffer locations later hrun now path hp
  rcases before with _ | ⟨first, _ | ⟨second, before⟩⟩
  · cases hrun
    cases hp
  · cases hrun
    have hfetched : now.session.fetched now.tree (.query importingBoth [58, 61, 58]) =
        [⟨"/m/c.js"⟩, ⟨"/m/b.js"⟩] := by decide +kernel
    have hmissing : now.tree.resolve ⟨"/m/c.js"⟩ = .error .notFound := by rfl
    have hdirectory : now.tree.resolve ⟨"/m/b.js"⟩ = .ok ["b.js", "m"] := by rfl
    rw [hfetched] at hp
    rintro location ⟨⟩
    obtain rfl | rfl : path = ⟨"/m/c.js"⟩ ∨ path = ⟨"/m/b.js"⟩ := by simpa using hp
    · rw [hmissing]
      nofun
    · rw [hdirectory]
      exact fun he => absurd (Except.ok.inj he) (by decide)
  · simp [brokenRequests] at hrun

theorem log_of_broken_requests :
    brokenModules.Holds ["log"] "begun\n".toUTF8 ∧
      Moment.LogApart ["log"] ⟨brokenModules, new {}⟩ brokenRequests ∧
      (Moment.turns ["log"] ⟨brokenModules, new {}⟩ brokenRequests).tree.Holds ["log"]
        ("begun\n".toUTF8 ++ brokenLines.toUTF8) := by
  have hbegun : brokenModules.Holds ["log"] "begun\n".toUTF8 := ⟨⟨7, 0⟩, rfl⟩
  have hlines : Moment.linesOf (Moment.noticesOf ["log"] ⟨brokenModules, new {}⟩ brokenRequests) =
      brokenLines := by
    decide +kernel
  have hlog := (log_of_requests_exact ["log"] ⟨brokenModules, new {}⟩ brokenRequests _ hbegun
    logApart_brokenRequests).1
  rw [hlines] at hlog
  exact ⟨hbegun, logApart_brokenRequests, hlog⟩

end Session

end EsmCompletion
