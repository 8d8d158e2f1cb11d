import EsmCompletion.Proofs.Cache.Run
import Mathlib.Data.Finset.Card
import Mathlib.Data.List.Chain

/-! # The accounts of a cache

What a run leaves in the cache is told by the texts that its fetches handed to the parser. The
record of a path is the one of its last text that was understood, the size counts the paths with
such a text, and the counter counts all texts, as the log does. The invariant relates a cache to the
attempts made so far; a fetch adds at most one of them, and never one for the time of the record
that is there. -/

namespace EsmCompletion.ModuleCache

/-! ## Attempts -/

/-- A text that is handed to the parser, with its path and the time of its file. -/
structure Attempt where
  path : Path
  modified : Timestamp
  text : String

/-- The record that an attempt is good for, if its text is understood. -/
def Attempt.record? (attempt : Attempt) : Option ParsedModule :=
  match exportsOf attempt.text attempt.path.shownName with
  | .error _ => none
  | .ok exports => some ⟨attempt.modified, exports⟩

namespace Moment

/-- The attempt that fetching a module makes. There is none if the file is not there, if the record
of the path has the time of the file, or if the file cannot be read. -/
def attempt? (moment : Moment) (path : Path) : Option Attempt :=
  match moment.files.tree.find path, moment.files.tree.readText path with
  | .ok entry, .ok text =>
    if (moment.cache.get? path).any (·.modified = entry.modified) then none
    else some ⟨path, entry.modified, text⟩
  | _, _ => none

/-- All attempts of a run, in the order in which they were made. -/
def attempts (moment : Moment) : List Happening → List Attempt
  | [] => []
  | .change files :: rest => (moment.next (.change files)).attempts rest
  | .fetch path :: rest =>
    (moment.attempt? path).toList ++ (moment.next (.fetch path)).attempts rest

/-- All that a run logs. -/
def events (moment : Moment) : List Happening → List Log.Event
  | [] => []
  | .change files :: rest => (moment.next (.change files)).events rest
  | .fetch path :: rest =>
    (moment.fetch path).events ++ (moment.next (.fetch path)).events rest

theorem attempts_append (moment : Moment) (run more : List Happening) :
    moment.attempts (run ++ more) = moment.attempts run ++ (moment.after run).attempts more := by
  induction run generalizing moment with
  | nil => rfl
  | cons happening rest ih =>
    cases happening with
    | change files => exact ih _
    | fetch path => exact (congrArg _ (ih _)).trans (List.append_assoc ..).symm

end Moment

/-- The records that attempts made for a path, however it was spelled, the last one at the end. -/
def recordsOf (attempts : List Attempt) (path : Path) : List ParsedModule :=
  (attempts.filter (·.path.components = path.components)).filterMap Attempt.record?

/-- The paths that attempts made records for, without their spelling. -/
def parsedPaths (attempts : List Attempt) : Finset (List Path.Component) :=
  ((attempts.filter (·.record?.isSome)).map (·.path.components)).toFinset

def isParsing : Log.Event → Bool
  | .parsing _ _ => true
  | _ => false

/-- What a fetch does to the cache and to the log, by the attempt it makes. -/
inductive Tried (cache : ModuleCache) (path : Path) :
    Option Attempt → Outcome (Except ModuleFault ExportMap) → Prop
  | idle {answer : Except ModuleFault ExportMap} {events : List Log.Event} :
      events.filter isParsing = [] → Tried cache path none ⟨cache, answer, events⟩
  | failed {attempt : Attempt} {answer : Except ModuleFault ExportMap} :
      attempt.path = path → attempt.record? = none →
      Tried cache path (some attempt)
        ⟨cache.counted, answer, [.parsing path (cache.parses + 1)]⟩
  | stored {attempt : Attempt} {record : ParsedModule} {answer : Except ModuleFault ExportMap} :
      attempt.path = path → attempt.record? = some record → cache.Stale path record.modified →
      Tried cache path (some attempt)
        ⟨cache.counted.store path record, answer, [.parsing path (cache.parses + 1)]⟩

theorem Moment.attempt?_of_stale {moment : Moment} {path : Path} {modified : Timestamp}
    {text : String} (ht : moment.files.tree.HasText path modified text)
    (hs : moment.cache.Stale path modified) :
    moment.attempt? path = some ⟨path, modified, text⟩ := by
  have hr := ht.readText
  obtain ⟨bytes, hf, -⟩ := ht
  have hold : (moment.cache.get? path).any (·.modified = modified) = false := by
    cases hg : moment.cache.get? path with
    | none => rfl
    | some record => simpa using hs record hg
  simp [attempt?, hf, hr, hold]

theorem tried_fetch (moment : Moment) (path : Path) :
    Tried moment.cache path (moment.attempt? path) (moment.fetch path) := by
  have hfetch := moment.fetch_spec path
  generalize moment.fetch path = outcome at hfetch
  cases hfetch with
  | missing hf | undated hf =>
    have hnone : moment.attempt? path = none := by simp [Moment.attempt?, hf]
    exact hnone ▸ .idle rfl
  | hit hf hg hm =>
    have hnone : moment.attempt? path = none := by
      unfold Moment.attempt?
      rw [hf]
      split <;> simp_all
    exact hnone ▸ .idle rfl
  | unreadable hf _ hr =>
    have hnone : moment.attempt? path = none := by simp [Moment.attempt?, hf, hr]
    exact hnone ▸ .idle rfl
  | malformed ht hs he =>
    rw [Moment.attempt?_of_stale ht hs]
    exact .failed rfl (by simp [Attempt.record?, he])
  | parsed ht hs he =>
    rw [Moment.attempt?_of_stale ht hs]
    exact .stored rfl (by simp [Attempt.record?, he]) hs

/-! ## One more attempt -/

theorem recordsOf_append (attempts more : List Attempt) (path : Path) :
    recordsOf (attempts ++ more) path = recordsOf attempts path ++ recordsOf more path := by
  simp [recordsOf]

theorem parsedPaths_append (attempts more : List Attempt) :
    parsedPaths (attempts ++ more) = parsedPaths attempts ∪ parsedPaths more := by
  simp [parsedPaths]

theorem recordsOf_singleton (attempt : Attempt) (path : Path) :
    recordsOf [attempt] path =
      if attempt.path.components = path.components then attempt.record?.toList else [] := by
  unfold recordsOf
  split
  · rename_i h
    cases hr : attempt.record? <;> simp [h, hr]
  · rename_i h
    simp [h]

theorem parsedPaths_singleton (attempt : Attempt) :
    parsedPaths [attempt] =
      if attempt.record?.isSome then {attempt.path.components} else ∅ := by
  unfold parsedPaths
  split <;> rename_i h <;> simp [h]

theorem mem_parsedPaths_iff {attempts : List Attempt} {path : Path} :
    path.components ∈ parsedPaths attempts ↔ recordsOf attempts path ≠ [] := by
  induction attempts with
  | nil => simp [parsedPaths, recordsOf]
  | cons attempt rest ih =>
    rw [← List.singleton_append, parsedPaths_append, recordsOf_append, Finset.mem_union, ih,
      parsedPaths_singleton, recordsOf_singleton]
    cases hr : attempt.record? with
    | none => simp
    | some record =>
      by_cases h : attempt.path.components = path.components
      · simp [h]
      · simp [h, Ne.symm h]

theorem length_storeRecord (path : Path) (record : ParsedModule)
    (records : List (Path × ParsedModule)) :
    (storeRecord path record records).length =
      if (findRecord? path.components records).isSome then records.length
      else records.length + 1 := by
  induction records with
  | nil => rfl
  | cons entry rest ih =>
    obtain ⟨known, old⟩ := entry
    by_cases h : known.components = path.components
    · simp [storeRecord, findRecord?, h]
    · simp only [storeRecord, findRecord?, h, if_false, List.length_cons, ih]
      split <;> rfl

/-! ## The accounts -/

/-- A cache holds what the attempts made so far leave behind. -/
structure Accounted (attempts : List Attempt) (cache : ModuleCache) : Prop where
  found : ∀ path, cache.get? path = (recordsOf attempts path).getLast?
  size : cache.size = (parsedPaths attempts).card
  parses : cache.parses = attempts.length
  renewed : ∀ path, (recordsOf attempts path).IsChain fun old new => old.modified ≠ new.modified

theorem accounted_empty : Accounted [] empty :=
  ⟨fun _ => rfl, rfl, rfl, fun _ => .nil⟩

variable {attempts : List Attempt} {cache : ModuleCache} {path : Path}

theorem Accounted.failed (h : Accounted attempts cache) {attempt : Attempt}
    (hr : attempt.record? = none) : Accounted (attempts ++ [attempt]) cache.counted := by
  have hrecords : ∀ path, recordsOf (attempts ++ [attempt]) path = recordsOf attempts path := by
    intro path
    simp [recordsOf_append, recordsOf_singleton, hr]
  have hpaths : parsedPaths (attempts ++ [attempt]) = parsedPaths attempts := by
    simp [parsedPaths_append, parsedPaths_singleton, hr]
  refine ⟨fun path => ?_, ?_, ?_, fun path => ?_⟩
  · rw [hrecords]
    exact h.found path
  · rw [hpaths]
    exact h.size
  · simp [counted, h.parses]
  · rw [hrecords]
    exact h.renewed path

theorem Accounted.stored (h : Accounted attempts cache) {attempt : Attempt}
    {record : ParsedModule} (hp : attempt.path = path) (hr : attempt.record? = some record)
    (hs : cache.Stale path record.modified) :
    Accounted (attempts ++ [attempt]) (cache.counted.store path record) := by
  have hrecords : ∀ other, recordsOf (attempts ++ [attempt]) other =
      recordsOf attempts other ++ if path.components = other.components then [record] else [] := by
    intro other
    simp [recordsOf_append, recordsOf_singleton, hr, hp]
  refine ⟨fun other => ?_, ?_, ?_, fun other => ?_⟩
  · rw [get?_store, hrecords]
    split
    · simp
    · rw [List.append_nil]
      exact h.found other
  · have hsize : (cache.counted.store path record).size =
        if (cache.get? path).isSome then cache.size else cache.size + 1 :=
      length_storeRecord path record cache.records
    have hpaths : parsedPaths (attempts ++ [attempt]) =
        insert path.components (parsedPaths attempts) := by
      simp [parsedPaths_append, parsedPaths_singleton, hr, hp]
    rw [hsize, hpaths, h.found, h.size]
    -- the path is new exactly if there is no record of it yet
    split
    · rename_i hk
      rw [Finset.insert_eq_of_mem (mem_parsedPaths_iff.2 (List.getLast?_isSome.1 hk))]
    · rename_i hk
      rw [Finset.card_insert_of_notMem]
      rw [mem_parsedPaths_iff, not_not]
      simpa using hk
  · simp [store, counted, h.parses]
  · rw [hrecords]
    split
    · rename_i hc
      -- the record that was there is the last one, and it is stale
      refine List.isChain_append.2 ⟨h.renewed other, .singleton _, fun old ho new hn => ?_⟩
      cases hn
      refine hs old ?_
      rw [get?, hc, ← get?, h.found other]
      exact ho
    · simpa using h.renewed other

theorem Accounted.tried (h : Accounted attempts cache) {attempt? : Option Attempt}
    {outcome : Outcome (Except ModuleFault ExportMap)}
    (ht : Tried cache path attempt? outcome) :
    Accounted (attempts ++ attempt?.toList) outcome.cache := by
  cases ht with
  | idle => simpa using h
  | failed _ hr => exact h.failed hr
  | stored hp hr hs => exact h.stored hp hr hs

theorem Accounted.after {moment : Moment} (h : Accounted attempts moment.cache)
    (run : List Happening) :
    Accounted (attempts ++ moment.attempts run) (moment.after run).cache := by
  induction run generalizing moment attempts with
  | nil => simpa [Moment.attempts, Moment.after] using h
  | cons happening rest ih =>
    cases happening with
    | change files =>
      have hnext : Accounted attempts (moment.next (.change files)).cache := h
      exact ih hnext
    | fetch path =>
      have hnext : Accounted _ (moment.next (.fetch path)).cache :=
        h.tried (tried_fetch moment path)
      have hrest := ih hnext
      rwa [List.append_assoc] at hrest

theorem accounted_after (files : Files) (run : List Happening) :
    Accounted ((Moment.start files).attempts run) ((Moment.start files).after run).cache := by
  have hstart : Accounted [] (Moment.start files).cache := accounted_empty
  exact hstart.after run

/-! ## The log -/

/-- The lines that attempts leave in the log when a number of them was made before. -/
def numbered (earlier : Nat) (attempts : List Attempt) : List Log.Event :=
  (attempts.zipIdx (earlier + 1)).map fun entry => .parsing entry.1.path entry.2

theorem Tried.events {attempt? : Option Attempt}
    {outcome : Outcome (Except ModuleFault ExportMap)} (h : Tried cache path attempt? outcome) :
    outcome.events.filter isParsing = numbered cache.parses attempt?.toList ∧
      outcome.cache.parses = cache.parses + attempt?.toList.length := by
  cases h with
  | idle he => exact ⟨he, rfl⟩
  | failed hp | stored hp =>
    subst hp
    exact ⟨rfl, rfl⟩

theorem numbered_append (earlier : Nat) (attempts more : List Attempt) :
    numbered earlier (attempts ++ more) =
      numbered earlier attempts ++ numbered (earlier + attempts.length) more := by
  simp [numbered, List.zipIdx_append, Nat.add_right_comm]

theorem events_eq_numbered (moment : Moment) (run : List Happening) :
    (moment.events run).filter isParsing =
      numbered moment.cache.parses (moment.attempts run) := by
  -- each fetch continues the numbers where the ones before have stopped
  induction run generalizing moment with
  | nil => rfl
  | cons happening rest ih =>
    cases happening with
    | change files => exact ih _
    | fetch path =>
      obtain ⟨hevents, hparses⟩ := (tried_fetch moment path).events
      rw [Moment.events, Moment.attempts, List.filter_append, hevents, ih, numbered_append,
        ← hparses]
      rfl

/-! ## Whole runs -/

theorem Accounted.size_le (h : Accounted attempts cache) : cache.size ≤ cache.parses := by
  rw [h.size, h.parses]
  calc (parsedPaths attempts).card
      ≤ ((attempts.filter (·.record?.isSome)).map (·.path.components)).length :=
        List.toFinset_card_le _
    _ ≤ attempts.length := by
        rw [List.length_map]
        exact List.length_filter_le ..

theorem Accounted.isEmpty_iff (h : Accounted attempts cache) :
    cache.isEmpty = true ↔ parsedPaths attempts = ∅ := by
  rw [isEmpty, List.isEmpty_iff, ← List.length_eq_zero_iff, ← Finset.card_eq_zero, ← h.size]
  rfl

theorem Accounted.grows {more : List Attempt} {later : ModuleCache}
    (h : Accounted attempts cache) (hl : Accounted (attempts ++ more) later) :
    cache.size ≤ later.size ∧ cache.parses ≤ later.parses := by
  rw [h.size, h.parses, hl.size, hl.parses, parsedPaths_append, List.length_append]
  exact ⟨Finset.card_le_card Finset.subset_union_left, Nat.le_add_right ..⟩

/-- The accounts of a cache after any run. A path has a record exactly if an attempt at it
succeeded, however it was spelled, and then the record of the last one, which no attempt repeats at
the same time. The size is the number of such paths, the counter is the number of attempts, and
neither ever falls; the log numbers the attempts from one on. -/
theorem runs_are_accounted (files : Files) (run : List Happening) :
    let attempts := (Moment.start files).attempts run
    let cache := ((Moment.start files).after run).cache
    (∀ path, cache.get? path = (recordsOf attempts path).getLast?) ∧
      cache.size = (parsedPaths attempts).card ∧
      (cache.isEmpty = true ↔ parsedPaths attempts = ∅) ∧
      cache.size ≤ cache.parses ∧
      (∀ more, cache.size ≤ ((Moment.start files).after (run ++ more)).cache.size ∧
        cache.parses ≤ ((Moment.start files).after (run ++ more)).cache.parses) ∧
      (∀ path, (recordsOf attempts path).IsChain fun old new => old.modified ≠ new.modified) ∧
      cache.parses = attempts.length ∧
      ((Moment.start files).events run).filter isParsing =
        (attempts.zipIdx 1).map fun entry => .parsing entry.1.path entry.2 := by
  intro attempts cache
  have h : Accounted attempts cache := accounted_after files run
  refine ⟨h.found, h.size, h.isEmpty_iff, h.size_le, fun more => ?_, h.renewed, h.parses,
    events_eq_numbered (.start files) run⟩
  have hlater := accounted_after files (run ++ more)
  rw [Moment.attempts_append] at hlater
  exact h.grows hlater

/-- A record serves every spelling of its path; a text that is not understood is parsed each time.
-/
example :
    ((Moment.start (.oneModule "export let a = 1;" ⟨5, 0⟩)).events
      [.fetch ⟨"/m/a.js"⟩, .fetch ⟨"/m//a.js"⟩, .change (.oneModule "export let =" ⟨6, 0⟩),
        .fetch ⟨"/m//a.js"⟩, .fetch ⟨"/m/a.js"⟩]) =
      [.parsing ⟨"/m/a.js"⟩ 1, .cacheHit ⟨"/m//a.js"⟩, .parsing ⟨"/m//a.js"⟩ 2,
        .parsing ⟨"/m/a.js"⟩ 3] := rfl

end EsmCompletion.ModuleCache
