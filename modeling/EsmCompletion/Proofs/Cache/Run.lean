import EsmCompletion.ModuleCache
import EsmCompletion.Proofs.FileTree.Lookup

/-! # Fetches and runs of the module cache

`Fetch` lists all that a fetch can do, with the condition under which it does it; later proofs take
its cases and never open `exports`. A run is any sequence of fetches and of changes to the files. -/

namespace EsmCompletion.ModuleCache

/-! ## What a fetch does -/

/-- No record is as old as a file of the given time. -/
def Stale (cache : ModuleCache) (path : Path) (modified : Timestamp) : Prop :=
  ∀ record, cache.get? path = some record → record.modified ≠ modified

def counted (cache : ModuleCache) : ModuleCache := { cache with parses := cache.parses + 1 }

/-- The outcomes that fetching the exports of a module can have. -/
inductive Fetch (cache : ModuleCache) (tree : FileTree) (path : Path) :
    Outcome (Except ModuleFault ExportMap) → Prop
  | missing : tree.find path = .error .notFound →
      Fetch cache tree path ⟨cache, .ok .empty, [.moduleMissing path]⟩
  | undated {fault : FileFault} : tree.find path = .error fault → fault ≠ .notFound →
      Fetch cache tree path ⟨cache, .error (.unknownTime path fault), []⟩
  | hit {entry : Entry} {record : ParsedModule} : tree.find path = .ok entry →
      cache.get? path = some record → record.modified = entry.modified →
      Fetch cache tree path ⟨cache, .ok record.exports, [.cacheHit path]⟩
  | unreadable {entry : Entry} {fault : FileFault} : tree.find path = .ok entry →
      cache.Stale path entry.modified → tree.readText path = .error fault →
      Fetch cache tree path ⟨cache, .error (.unreadable path fault), []⟩
  | malformed {modified : Timestamp} {text : String} {error : SourceError} :
      tree.HasText path modified text → cache.Stale path modified →
      exportsOf text path.shownName = .error error →
      Fetch cache tree path
        ⟨cache.counted, .error (.source error), [.parsing path (cache.parses + 1)]⟩
  | parsed {modified : Timestamp} {text : String} {exports : ExportMap} :
      tree.HasText path modified text → cache.Stale path modified →
      exportsOf text path.shownName = .ok exports →
      Fetch cache tree path
        ⟨cache.counted.store path ⟨modified, exports⟩, .ok exports,
          [.parsing path (cache.parses + 1)]⟩

variable {cache : ModuleCache} {tree : FileTree} {path : Path}

theorem fetch_reload {entry : Entry} (hf : tree.find path = .ok entry)
    (hs : cache.Stale path entry.modified) :
    Fetch cache tree path (cache.reload tree path entry.modified) := by
  unfold reload
  cases hr : tree.readText path with
  | error fault =>
    cases fault with
    | notFound => exact absurd hr (FileTree.readText_ne_notFound hf)
    | _ => exact .unreadable hf hs hr
  | ok text =>
    have ht := FileTree.hasText_of_readText hf hr
    simp only [parse]
    cases he : exportsOf text path.shownName with
    | error error => exact .malformed ht hs he
    | ok exports => exact .parsed ht hs he

/-- Whatever a fetch does, it is one of the cases. -/
theorem fetch_exports (cache : ModuleCache) (tree : FileTree) (path : Path) :
    Fetch cache tree path (cache.exports tree path) := by
  unfold exports
  cases hf : tree.find path with
  | error fault =>
    cases fault with
    | notFound => exact .missing hf
    | _ => exact .undated hf nofun
  | ok entry =>
    simp only
    cases hg : cache.get? path with
    | none => exact fetch_reload hf fun record hr => by rw [hg] at hr; cases hr
    | some record =>
      simp only
      split
      · rename_i hm
        exact .hit hf hg hm
      · rename_i hm
        refine fetch_reload hf fun other hr => ?_
        rw [hg] at hr
        cases hr
        exact hm

/-! ## Records -/

theorem mem_of_findRecord? {components : List Path.Component} {record : ParsedModule}
    {records : List (Path × ParsedModule)} (h : findRecord? components records = some record) :
    ∃ known, (known, record) ∈ records ∧ known.components = components := by
  induction records with
  | nil => cases h
  | cons entry rest ih =>
    obtain ⟨known, old⟩ := entry
    unfold findRecord? at h
    split at h
    · rename_i hk
      cases h
      exact ⟨known, List.mem_cons_self .., hk⟩
    · obtain ⟨key, hm, hk⟩ := ih h
      exact ⟨key, List.mem_cons_of_mem _ hm, hk⟩

/-- A record that is there after a store was there before, or is the stored one under the stored
path or under the spelling that was known. -/
theorem mem_storeRecord {stored : ParsedModule} {records : List (Path × ParsedModule)}
    {known : Path} {record : ParsedModule} (h : (known, record) ∈ storeRecord path stored records) :
    (known, record) ∈ records ∨
      record = stored ∧ known.components = path.components ∧
        (known = path ∨ ∃ old, (known, old) ∈ records) := by
  induction records with
  | nil =>
    obtain ⟨rfl, rfl⟩ : known = path ∧ record = stored := by simpa [storeRecord] using h
    exact .inr ⟨rfl, rfl, .inl rfl⟩
  | cons entry rest ih =>
    obtain ⟨key, old⟩ := entry
    unfold storeRecord at h
    split at h
    · rename_i hk
      rcases List.mem_cons.1 h with he | hm
      · cases he
        exact .inr ⟨rfl, hk, .inr ⟨old, List.mem_cons_self ..⟩⟩
      · exact .inl (List.mem_cons_of_mem _ hm)
    · rcases List.mem_cons.1 h with he | hm
      · exact .inl (he ▸ List.mem_cons_self ..)
      · rcases ih hm with hm | ⟨hr, hc, hk⟩
        · exact .inl (List.mem_cons_of_mem _ hm)
        · refine .inr ⟨hr, hc, hk.imp_right ?_⟩
          rintro ⟨old', ho⟩
          exact ⟨old', List.mem_cons_of_mem _ ho⟩

/-- What is made of an answer is made of one that is there. -/
theorem exists_of_map_eq_ok {ε α β : Type} {answer : Except ε α} {f : α → β} {b : β}
    (h : answer.map f = .ok b) : ∃ a, answer = .ok a ∧ f a = b := by
  cases answer with
  | error e => cases h
  | ok a => exact ⟨a, rfl, Except.ok.inj h⟩

/-- Whether something holds of the exports of every record. -/
def AllExports (holds : ExportMap → Prop) (cache : ModuleCache) : Prop :=
  ∀ path record, (path, record) ∈ cache.records → holds record.exports

/-- What holds of all that is recorded and of all that a fetch can parse holds of what the fetch
leaves and of its answer. -/
theorem AllExports.exports {holds : ExportMap → Prop} (h : cache.AllExports holds)
    (hempty : holds .empty)
    (hparsed : ∀ modified text exports, tree.HasText path modified text →
      exportsOf text path.shownName = .ok exports → holds exports) :
    (cache.exports tree path).cache.AllExports holds ∧
      ∀ found, (cache.exports tree path).answer = .ok found → holds found := by
  have hfetch := fetch_exports cache tree path
  generalize cache.exports tree path = outcome at hfetch
  cases hfetch with
  | missing =>
    refine ⟨h, fun found hf => ?_⟩
    cases hf
    exact hempty
  | undated | unreadable | malformed => exact ⟨h, nofun⟩
  | hit _ hg =>
    refine ⟨h, fun found hf => ?_⟩
    cases hf
    obtain ⟨known, hm, -⟩ := mem_of_findRecord? hg
    exact h known _ hm
  | parsed hx _ he =>
    have hnew := hparsed _ _ _ hx he
    constructor
    · intro known record hm
      rcases mem_storeRecord hm with hm | ⟨rfl, -, -⟩
      · exact h known record hm
      · exact hnew
    · intro found hf
      cases hf
      exact hnew

/-! ## Runs -/

/-- The files at a moment: a tree in which everything lies in a directory. -/
structure Files where
  tree : FileTree
  isTree : tree.IsTree

namespace Files

def empty : Files := ⟨.empty, FileTree.isTree_empty⟩

/-- One module in one directory, of a given text and time. -/
def oneModule (text : String) (modified : Timestamp) : Files :=
  ⟨.oneModule text modified, FileTree.isTree_oneModule text modified⟩

end Files

/-- One thing that happens in a run: the files become others, whatever it was that changed them, or
the exports of a module are fetched. -/
inductive Happening where
  | change (files : Files)
  | fetch (path : Path)

structure Moment where
  files : Files
  cache : ModuleCache

namespace Moment

def start (files : Files) : Moment := ⟨files, .empty⟩

def fetch (moment : Moment) (path : Path) : Outcome (Except ModuleFault ExportMap) :=
  moment.cache.exports moment.files.tree path

theorem fetch_spec (moment : Moment) (path : Path) :
    Fetch moment.cache moment.files.tree path (moment.fetch path) :=
  fetch_exports moment.cache moment.files.tree path

def next (moment : Moment) : Happening → Moment
  | .change files => { moment with files }
  | .fetch path => { moment with cache := (moment.fetch path).cache }

def after (moment : Moment) (run : List Happening) : Moment := run.foldl next moment

theorem after_append (moment : Moment) (run more : List Happening) :
    moment.after (run ++ more) = (moment.after run).after more := by
  simp [after, List.foldl_append]

end Moment

end EsmCompletion.ModuleCache
