import EsmCompletion.Proofs.Cache.Run
import Mathlib.Data.List.Induction

/-! # Where cached exports come from

Nothing is assumed about modification times here: files may change under an old time, vanish and
come back. Every record still goes back to one fetch of the run, at which its path led to a file
of the record's time whose text has the record's exports; and every list of exports that a fetch
answers with belongs to a text that the file had, now or earlier, under the time that it has now.
The invariant speaks of the run so far. It survives a store under a second spelling because both
spellings lead to the same file, and because the shown name depends on the components. -/

namespace EsmCompletion.ModuleCache

open FileTree (HasText)

/-- At the end of a run, the path leads to a file of a time with a text that has some exports. -/
def Declared (first : Moment) (run : List Happening) (path : Path) (record : ParsedModule) : Prop :=
  ∃ text, (first.after run).files.tree.HasText path record.modified text ∧
    exportsOf text path.shownName = .ok record.exports

/-- Fetching a module parses its file, and stores and answers what the file declares. -/
def Parses (moment : Moment) (path : Path) (record : ParsedModule) : Prop :=
  moment.fetch path = ⟨moment.cache.counted.store path record, .ok record.exports,
    [.parsing path (moment.cache.parses + 1)]⟩

/-- A record of a path was made by a fetch of the run, perhaps under another spelling, at a moment
at which the file of the path declared its exports. -/
def Recorded (first : Moment) (run : List Happening) (path : Path) (record : ParsedModule) : Prop :=
  ∃ before called later, run = before ++ .fetch called :: later ∧
    called.components = path.components ∧ Parses (first.after before) called record ∧
    Declared first before path record

theorem Recorded.extend {first : Moment} {run : List Happening} {path : Path}
    {record : ParsedModule} (h : Recorded first run path record) (more : List Happening) :
    Recorded first (run ++ more) path record := by
  obtain ⟨before, called, later, rfl, hrest⟩ := h
  exact ⟨before, called, later ++ more, by simp, hrest⟩

theorem Declared.endsInName {first : Moment} {run : List Happening} {path : Path}
    {record : ParsedModule} (h : Declared first run path record) : path.EndsInName := by
  obtain ⟨text, ⟨bytes, hf, -⟩, -⟩ := h
  exact (first.after run).files.isTree.endsInName_of_find hf

/-- What a file declares, it declares under every spelling that ends in a name. -/
theorem Declared.respell {first : Moment} {run : List Happening} {path other : Path}
    {record : ParsedModule} (h : Declared first run path record)
    (hc : path.components = other.components) (ho : other.EndsInName) :
    Declared first run other record := by
  have hp := h.endsInName
  obtain ⟨text, ⟨bytes, hf, ht⟩, he⟩ := h
  refine ⟨text, ⟨bytes, FileTree.find_of_components hc hp ho hf, ht⟩, ?_⟩
  rw [← hp.shownName_of_components hc]
  exact he

/-- All records of a cache go back to fetches of a run. -/
def AllRecorded (first : Moment) (run : List Happening) (cache : ModuleCache) : Prop :=
  ∀ path record, (path, record) ∈ cache.records → Recorded first run path record

/-- The step that stores a record: it is recorded under the spelling that was fetched and under the
one that was known. -/
theorem AllRecorded.store {first : Moment} {run : List Happening} {path : Path}
    {record : ParsedModule} (h : AllRecorded first run (first.after run).cache)
    (hp : Parses (first.after run) path record) (hd : Declared first run path record) :
    AllRecorded first (run ++ [.fetch path])
      ((first.after run).cache.counted.store path record) := by
  intro known other hm
  rcases mem_storeRecord hm with hm | ⟨rfl, hc, hk⟩
  · exact (h known other hm).extend _
  · refine ⟨run, path, [], rfl, hc.symm, hp, ?_⟩
    rcases hk with rfl | ⟨old, hold⟩
    · exact hd
    · obtain ⟨_, _, _, _, _, _, hdold⟩ := h known old hold
      exact hd.respell hc.symm hdold.endsInName

theorem AllRecorded.next {first : Moment} {run : List Happening}
    (h : AllRecorded first run (first.after run).cache) (happening : Happening) :
    AllRecorded first (run ++ [happening]) ((first.after run).next happening).cache := by
  cases happening with
  | change files => exact fun path record hm => (h path record hm).extend _
  | fetch path =>
    have hkeep : AllRecorded first (run ++ [.fetch path]) (first.after run).cache :=
      fun known record hm => (h known record hm).extend _
    have hfetch := (first.after run).fetch_spec path
    change AllRecorded _ _ ((first.after run).fetch path).cache
    generalize ho : (first.after run).fetch path = outcome at hfetch
    -- only a parse that succeeds stores a record
    cases hfetch with
    | missing | undated | hit | unreadable | malformed => exact hkeep
    | parsed ht _ he => exact h.store ho ⟨_, ht, he⟩

/-- Whatever happens, every record goes back to a fetch. -/
theorem allRecorded_after (files : Files) (run : List Happening) :
    AllRecorded (.start files) run ((Moment.start files).after run).cache := by
  induction run using List.reverseRecOn with
  | nil => intro path record hm; cases hm
  | append_singleton run happening ih =>
    rw [Moment.after_append]
    exact ih.next happening

/-! ## Answers -/

/-- What a record that is found for a path says, its file declared at a fetch of the run, under a
spelling of the path that ends in a name. -/
theorem AllRecorded.declared {first : Moment} {run : List Happening} {cache : ModuleCache}
    (h : AllRecorded first run cache) {path : Path} {record : ParsedModule}
    (hg : cache.get? path = some record) :
    ∃ spelling earlier, spelling.components = path.components ∧
      (path.EndsInName → spelling = path) ∧ earlier <+: run ∧
      Declared first earlier spelling record := by
  obtain ⟨known, hm, hk⟩ := mem_of_findRecord? hg
  obtain ⟨before, called, later, rfl, -, -, hd⟩ := h known record hm
  have hprefix : before <+: before ++ .fetch called :: later := List.prefix_append ..
  -- a path that ends in no name is left with the spelling of the record
  by_cases hp : path.EndsInName
  · exact ⟨path, before, rfl, fun _ => rfl, hprefix, hd.respell hk hp⟩
  · exact ⟨known, before, hk, fun h => absurd h hp, hprefix, hd⟩

/-- Where cached exports come from, whatever happens to the files and their times. Every record was
made by a parse of the run, at a moment at which its path led to a file of the record's time that
declared the record's exports. A fetch that has an answer either finds no file and answers with no
exports, or answers with what the file declared, now or earlier, under the time that it has now; and
then the record of the path is made of that time and these exports. -/
theorem cached_exports_provenance (files : Files) (run : List Happening) :
    (∀ path record, (path, record) ∈ ((Moment.start files).after run).cache.records →
      Recorded (.start files) run path record) ∧
    ∀ path exports, (((Moment.start files).after run).fetch path).answer = .ok exports →
      (((Moment.start files).after run).files.tree.find path = .error .notFound ∧
        exports = .empty) ∨
      ∃ entry, ((Moment.start files).after run).files.tree.find path = .ok entry ∧
        (∃ spelling earlier, spelling.components = path.components ∧
          (path.EndsInName → spelling = path) ∧ earlier <+: run ∧
          Declared (.start files) earlier spelling ⟨entry.modified, exports⟩) ∧
        (((Moment.start files).after run).fetch path).cache.get? path =
          some ⟨entry.modified, exports⟩ := by
  have hall := allRecorded_after files run
  refine ⟨hall, fun path exports hanswer => ?_⟩
  have hfetch : Fetch _ _ path (((Moment.start files).after run).fetch path) := fetch_exports ..
  generalize ((Moment.start files).after run).fetch path = outcome at hfetch hanswer
  cases hfetch with
  | missing hf =>
    cases hanswer
    exact .inl ⟨hf, rfl⟩
  | undated | unreadable | malformed => cases hanswer
  | hit hf hg hm =>
    rename_i entry record
    obtain ⟨modified, declared⟩ := record
    cases hanswer
    obtain rfl : modified = entry.modified := hm
    exact .inr ⟨entry, hf, hall.declared hg, hg⟩
  | parsed ht _ he =>
    cases hanswer
    obtain ⟨bytes, hf, hb⟩ := ht
    refine .inr ⟨_, hf, ?_, ?_⟩
    · exact ⟨path, run, rfl, fun _ => rfl, List.prefix_rfl, _, ⟨bytes, hf, hb⟩, he⟩
    · rw [get?_store, if_pos rfl]

def oneModule : Files :=
  ⟨.oneModule "export let a = 1;" ⟨5, 0⟩, FileTree.isTree_oneModule _ _⟩

/-- What that module exports, at its time. -/
def oneRecord : ParsedModule := ⟨⟨5, 0⟩, ⟨[("a", ⟨"a\ta.js", "a"⟩)]⟩⟩

/-- One spelling stores the record that another is answered from. -/
theorem provenance_of_respelled :
    Recorded (.start oneModule) [.fetch ⟨"/m//a.js"⟩] ⟨"/m//a.js"⟩ oneRecord ∧
      ∃ spelling earlier, spelling.components = Path.components ⟨"/m/./a.js"⟩ ∧
        earlier <+: [.fetch ⟨"/m//a.js"⟩] ∧
        Declared (.start oneModule) earlier spelling oneRecord := by
  obtain ⟨hrecorded, hanswer⟩ := cached_exports_provenance oneModule [.fetch ⟨"/m//a.js"⟩]
  refine ⟨hrecorded ⟨"/m//a.js"⟩ oneRecord (List.mem_singleton.2 rfl), ?_⟩
  rcases hanswer ⟨"/m/./a.js"⟩ oneRecord.exports rfl with ⟨-, hempty⟩ | ⟨entry, hf, hfrom, -⟩
  · cases hempty
  · obtain ⟨spelling, earlier, hc, -, hearlier, hd⟩ := hfrom
    cases hf
    exact ⟨spelling, earlier, hc, hearlier, hd⟩

end EsmCompletion.ModuleCache
