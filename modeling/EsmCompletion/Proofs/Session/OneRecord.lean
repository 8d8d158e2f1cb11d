import EsmCompletion.Proofs.Cache.Accounting
import EsmCompletion.Proofs.Imports.ModulePath
import EsmCompletion.Proofs.Session.Fetches

/-! # One record for each file

As long as the files of all buffers have absolute names, a session fetches the paths of modules
alone, and no two of these lead to one place. So its records are of different files, and a file is
parsed with success again only after its time has changed, however many buffers import it and however
they spell its path. The invariant compares the records with the files that were parsed so far. -/

namespace EsmCompletion

open EsmCompletion.Path (IsName IsModule)

namespace ModuleCache

/-! ## Files that are parsed -/

/-- The place of a file and the time that it had. -/
structure ParsedFile where
  place : Location
  modified : Timestamp
  deriving DecidableEq, Repr

/-- The file that a fetch parses with success, if it does. -/
def parsedFile? (cache : ModuleCache) (tree : FileTree) (path : Path) : Option ParsedFile :=
  let outcome := cache.exports tree path
  match tree.resolve path, tree.find path, outcome.answer with
  | .ok place, .ok entry, .ok _ =>
    if outcome.events.any isParsing then some ⟨place, entry.modified⟩ else none
  | _, _, _ => none

/-- The files that fetches parse with success, one after the other. -/
def parsedFiles (tree : FileTree) : List Path → ModuleCache → List ParsedFile
  | [], _ => []
  | path :: rest, cache =>
    (cache.parsedFile? tree path).toList ++ parsedFiles tree rest (cache.exports tree path).cache

/-- The times at which the file at a place was parsed with success. -/
def timesOf (parsed : List ParsedFile) (place : Location) : List Timestamp :=
  (parsed.filter (·.place = place)).map ParsedFile.modified

/-- A fetch parses no file with success and leaves the records alone, or it stores a record for the
file that it parses, whose time is not the one of the old record. -/
theorem parsedFile?_cases (cache : ModuleCache) (tree : FileTree) (path : Path) :
    cache.parsedFile? tree path = none ∧
        (cache.exports tree path).cache.records = cache.records ∨
      ∃ place bytes modified exports, tree.resolve path = .ok place ∧
        tree.entryAt? place = some ⟨.file bytes, modified⟩ ∧
        cache.parsedFile? tree path = some ⟨place, modified⟩ ∧ cache.Stale path modified ∧
        (cache.exports tree path).cache.records =
          storeRecord path ⟨modified, exports⟩ cache.records := by
  unfold parsedFile?
  have hfetch := fetch_exports cache tree path
  generalize cache.exports tree path = outcome at hfetch
  cases hfetch with
  | missing | undated | hit | unreadable | malformed =>
    refine .inl ⟨?_, rfl⟩
    simp only
    split <;> simp_all [isParsing]
  | parsed hx hs =>
    obtain ⟨bytes, hf, -⟩ := hx
    obtain ⟨place, hr, he⟩ := FileTree.find_eq_ok.1 hf
    exact .inr ⟨place, bytes, _, _, hr, he, by simp [hr, hf, isParsing], hs, rfl⟩

theorem timesOf_append (parsed more : List ParsedFile) (place : Location) :
    timesOf (parsed ++ more) place = timesOf parsed place ++ timesOf more place := by
  simp [timesOf]

theorem timesOf_singleton (file : ParsedFile) (place : Location) :
    timesOf [file] place = if file.place = place then [file.modified] else [] := by
  unfold timesOf
  split <;> rename_i h <;> simp [h]

/-! ## The invariant -/

/-- A cache keeps one record for each of the files that were parsed. -/
structure OneEach (parsed : List ParsedFile) (cache : ModuleCache) : Prop where
  modules : ∀ path record, (path, record) ∈ cache.records → path.IsModule
  apart : cache.records.Pairwise fun one other => one.1.components ≠ other.1.components
  named : ∀ file ∈ parsed, ∀ name ∈ file.place, IsName name
  latest : ∀ place : Location, (∀ name ∈ place, IsName name) →
    (cache.get? place.path).map ParsedModule.modified = (timesOf parsed place).getLast?
  renewed : ∀ place, (timesOf parsed place).IsChain (· ≠ ·)

theorem oneEach_empty : OneEach [] empty :=
  ⟨nofun, .nil, nofun, fun _ _ => rfl, fun _ => .nil⟩

/-- A record is stored in place of the one with the same components. -/
theorem pairwise_storeRecord {path : Path} {record : ParsedModule}
    {records : List (Path × ParsedModule)}
    (h : records.Pairwise fun one other => one.1.components ≠ other.1.components) :
    (storeRecord path record records).Pairwise
      fun one other => one.1.components ≠ other.1.components := by
  induction records with
  | nil => exact List.pairwise_singleton _ _
  | cons entry rest ih =>
    obtain ⟨known, old⟩ := entry
    obtain ⟨hfirst, hrest⟩ := List.pairwise_cons.1 h
    unfold storeRecord
    split
    · exact List.pairwise_cons.2 ⟨hfirst, hrest⟩
    · rename_i hk
      refine List.pairwise_cons.2 ⟨fun other ho => ?_, ih hrest⟩
      rcases mem_storeRecord ho with ho | ⟨-, hc, -⟩
      · exact hfirst other ho
      · exact fun e => hk (e.trans hc)

/-- Places are told apart by the components of their paths. -/
theorem path_injective {place other : Location} (h : ∀ name ∈ place, IsName name)
    (h' : ∀ name ∈ other, IsName name) (hc : place.path.components = other.path.components) :
    place = other := by
  rw [FileTree.components_path h, FileTree.components_path h'] at hc
  have hnames := (List.cons.inj hc).2
  have hinjective : Function.Injective Path.Component.normal := fun _ _ e =>
    Path.Component.normal.inj e
  exact List.reverse_injective (List.map_injective_iff.2 hinjective hnames)

variable {parsed : List ParsedFile} {cache : ModuleCache} {tree : FileTree}

theorem OneEach.congr {other : ModuleCache} (h : OneEach parsed cache)
    (he : other.records = cache.records) : OneEach parsed other := by
  obtain ⟨records, parses⟩ := cache
  obtain ⟨records', parses'⟩ := other
  cases he
  exact ⟨h.modules, h.apart, h.named, h.latest, h.renewed⟩

theorem OneEach.store (h : OneEach parsed cache) {path : Path} (hp : path.IsModule)
    {place : Location} (hr : tree.resolve path = .ok place) {modified : Timestamp}
    (hs : cache.Stale path modified) (exports : ExportMap) :
    OneEach (parsed ++ [⟨place, modified⟩]) (cache.store path ⟨modified, exports⟩) := by
  have hplace : ∀ name ∈ place, IsName name := fun name hn =>
    ((FileTree.normalize_of_resolve hp.absolute hr).1.names name hn).1
  obtain rfl := hp.eq_path hr
  refine ⟨fun known record hm => ?_, pairwise_storeRecord h.apart, fun file hf => ?_,
    fun other ho => ?_, fun other => ?_⟩
  · rcases mem_storeRecord hm with hm | ⟨-, -, rfl | ⟨old, hold⟩⟩
    · exact h.modules known record hm
    · exact hp
    · exact h.modules known old hold
  · rcases List.mem_append.1 hf with hf | hf
    · exact h.named file hf
    · cases List.mem_singleton.1 hf
      exact hplace
  · rw [get?_store, timesOf_append, timesOf_singleton]
    by_cases he : place = other
    · simp [he]
    · have hc : place.path.components ≠ other.path.components := fun hc =>
        he (path_injective hplace ho hc)
      simpa [he, hc] using h.latest other ho
  · rw [timesOf_append, timesOf_singleton]
    by_cases he : place = other
    · subst he
      -- the last time is the one of the record, which is stale
      refine List.isChain_append.2 ⟨h.renewed place, by simp, fun last hlast next hnext => ?_⟩
      rw [← h.latest place hplace] at hlast
      obtain ⟨record, hg, rfl⟩ := Option.map_eq_some_iff.1 hlast
      obtain rfl : modified = next := by simpa using hnext
      exact hs record hg
    · simpa [he] using h.renewed other

theorem OneEach.fetch (h : OneEach parsed cache) (tree : FileTree) {path : Path}
    (hp : path.IsModule) :
    OneEach (parsed ++ (cache.parsedFile? tree path).toList) (cache.exports tree path).cache := by
  rcases cache.parsedFile?_cases tree path with ⟨hnone, hkeep⟩ | hstored
  · rw [hnone, Option.toList_none, List.append_nil]
    exact h.congr hkeep
  · obtain ⟨place, bytes, modified, exports, hr, -, hsome, hs, hstore⟩ := hstored
    rw [hsome]
    exact (h.store hp hr hs exports).congr hstore

theorem OneEach.fetchAll (tree : FileTree) {paths : List Path}
    (hp : ∀ path ∈ paths, path.IsModule) {parsed : List ParsedFile} {cache : ModuleCache}
    (h : OneEach parsed cache) :
    OneEach (parsed ++ parsedFiles tree paths cache) (fetchAll tree paths cache).cache := by
  induction paths generalizing parsed cache with
  | nil => simpa [parsedFiles, ModuleCache.fetchAll] using h
  | cons path rest ih =>
    have hfirst := h.fetch tree (hp path (List.mem_cons_self ..))
    have hrest := ih (fun other ho => hp other (List.mem_cons_of_mem _ ho)) hfirst
    rwa [List.append_assoc] at hrest

theorem parsedFiles_entry {paths : List Path} {file : ParsedFile}
    (h : file ∈ parsedFiles tree paths cache) :
    ∃ entry, tree.entryAt? file.place = some entry ∧ entry.modified = file.modified := by
  induction paths generalizing cache with
  | nil => cases h
  | cons path rest ih =>
    rcases List.mem_append.1 h with h | h
    · rcases cache.parsedFile?_cases tree path with ⟨hnone, -⟩ | hstored
      · simp [hnone] at h
      · obtain ⟨place, bytes, modified, exports, hr, he, hsome, -, -⟩ := hstored
        obtain rfl : file = ⟨place, modified⟩ := by simpa [hsome] using h
        exact ⟨_, he, rfl⟩
    · exact ih h

end ModuleCache

/-! ## Runs -/

namespace Session

open ModuleCache (OneEach ParsedFile timesOf)

/-- The files that the requests of a run parse with success. -/
def Moment.parsedFiles (moment : Moment) : List Happening → List ParsedFile
  | [] => []
  | .change tree :: rest => (moment.next (.change tree)).parsedFiles rest
  | .request request :: rest =>
    ModuleCache.parsedFiles moment.tree (moment.session.fetched moment.tree request)
        moment.session.cache ++
      (moment.next (.request request)).parsedFiles rest

/-- The buffer of a request has an absolute name, if it has one. -/
def Request.Absolute (request : Request) : Prop :=
  ∀ file, request.buffer.file = some file → file.isAbsolute = true

variable {moment : Moment} {parsed : List ParsedFile}

theorem Moment.oneEach_request (h : OneEach parsed moment.session.cache) {request : Request}
    (ha : request.Absolute) :
    OneEach (parsed ++ ModuleCache.parsedFiles moment.tree
        (moment.session.fetched moment.tree request) moment.session.cache)
      (moment.next (.request request)).session.cache := by
  have hmodules : ∀ path ∈ moment.session.fetched moment.tree request, path.IsModule := by
    intro path hp
    obtain ⟨word, hg⟩ := mem_fetched hp
    exact Imports.isModule_of_get? ha hg
  have hall := h.fetchAll moment.tree hmodules
  rw [← cache_reply] at hall
  exact hall

theorem Moment.oneEach_after {run : List Happening}
    (ha : ∀ request, .request request ∈ run → request.Absolute)
    (h : OneEach parsed moment.session.cache) :
    OneEach (parsed ++ moment.parsedFiles run) (moment.after run).session.cache := by
  induction run generalizing moment parsed with
  | nil => simpa [parsedFiles, after] using h
  | cons happening rest ih =>
    have hrest : ∀ request, .request request ∈ rest → request.Absolute := fun request hm =>
      ha request (List.mem_cons_of_mem _ hm)
    cases happening with
    | change tree =>
      have hnext : OneEach parsed (moment.next (.change tree)).session.cache := h
      exact ih hrest hnext
    | request request =>
      have hnext := ih hrest (oneEach_request h (ha request (List.mem_cons_self ..)))
      rwa [List.append_assoc] at hnext

/-- A file that is parsed has its time in one of the trees of the run. -/
theorem Moment.parsedFiles_entry {run : List Happening} {file : ParsedFile}
    (h : file ∈ moment.parsedFiles run) :
    ∃ tree ∈ trees moment.tree run, ∃ entry, tree.entryAt? file.place = some entry ∧
      entry.modified = file.modified := by
  induction run generalizing moment with
  | nil => cases h
  | cons happening rest ih =>
    cases happening with
    | change tree =>
      obtain ⟨other, ho, hentry⟩ := ih h
      exact ⟨other, List.mem_cons_of_mem _ ho, hentry⟩
    | request request =>
      rcases List.mem_append.1 h with h | h
      · exact ⟨moment.tree, List.mem_cons_self .., ModuleCache.parsedFiles_entry h⟩
      · have hrest := ih h
        exact hrest

/-- Times of which no two neighbours are equal, and which are all the same, are at most one. -/
theorem length_le_one_of_isChain {times : List Timestamp} (h : times.IsChain (· ≠ ·))
    (modified : Timestamp) (hsame : ∀ time ∈ times, time = modified) : times.length ≤ 1 := by
  match times with
  | [] | [_] => simp
  | first :: second :: rest =>
    have hne := (List.isChain_cons_cons.1 h).1
    exact absurd ((hsame first (by simp)).trans (hsame second (by simp)).symm) hne

/-- One record for each file. In a run in which all buffers that are saved have absolute names, all
records are kept under paths of modules, and no two of them lead to the same place, in whatever
tree. A file is parsed with success again only if its time has changed since; so a file whose time
never changes is parsed with success at most once. -/
theorem one_record_per_file (configuration : Configuration) (first : FileTree)
    (run : List Happening) (ha : ∀ request, .request request ∈ run → request.Absolute) :
    let start : Moment := ⟨first, new configuration⟩
    let records := (start.after run).session.cache.records
    (∀ path record, (path, record) ∈ records → path.IsModule) ∧
      records.Pairwise (fun one other => ∀ tree place, FileTree.resolve tree one.1 = .ok place →
        FileTree.resolve tree other.1 ≠ .ok place) ∧
      (∀ place, (timesOf (start.parsedFiles run) place).IsChain (· ≠ ·)) ∧
      ∀ place modified, (∀ tree ∈ trees first run, ∀ entry, tree.entryAt? place = some entry →
          entry.modified = modified) →
        (timesOf (start.parsedFiles run) place).length ≤ 1 := by
  intro start records
  have hempty : OneEach [] start.session.cache := ModuleCache.oneEach_empty
  have h : OneEach (start.parsedFiles run) (start.after run).session.cache :=
    Moment.oneEach_after ha hempty
  refine ⟨h.modules, ?_, h.renewed, fun place modified hm => ?_⟩
  · refine h.apart.imp_of_mem fun {one other} ho ho' hc tree place hr hr' => hc ?_
    have heq := (h.modules one.1 one.2 ho).eq_path hr
    have heq' := (h.modules other.1 other.2 ho').eq_path hr'
    rw [heq, heq']
  · refine length_le_one_of_isChain (h.renewed place) modified fun time ht => ?_
    obtain ⟨file, hf, rfl⟩ := List.mem_map.1 ht
    obtain ⟨hparsed, hp⟩ := List.mem_filter.1 hf
    obtain ⟨tree, htree, entry, he, hentry⟩ := Moment.parsedFiles_entry hparsed
    obtain rfl : file.place = place := by simpa using hp
    exact hentry.symm.trans (hm tree htree entry he)

/-- Two buffers in different directories that import one module, each in its own way. -/
def twoSpellings : List Happening :=
  [.request (.query ⟨"import * as A from './a.js'\nA.", some ⟨"/m/main.js"⟩⟩ [30]),
    .request (.query ⟨"import * as B from '../.././m/a.js'\nB.", some ⟨"/x//./y/z.js"⟩⟩ [40])]

/-- They share a record, and the module is parsed once. -/
theorem one_record_for_two_spellings :
    let start : Moment := ⟨.oneModule "export let a = 1;" ⟨5, 0⟩, new {}⟩
    let records := (start.after twoSpellings).session.cache.records
    (∀ request, .request request ∈ twoSpellings → request.Absolute) ∧
      records.map Prod.fst = [⟨"/m/a.js"⟩] ∧
      (∀ path record, (path, record) ∈ records → path.IsModule) ∧
      ⟨5, 0⟩ ∈ timesOf (start.parsedFiles twoSpellings) ["a.js", "m"] ∧
      (timesOf (start.parsedFiles twoSpellings) ["a.js", "m"]).length ≤ 1 := by
  intro start records
  have habsolute : ∀ request, .request request ∈ twoSpellings → request.Absolute := by
    intro request hm file hf
    have hbuffer : request.buffer.file = some ⟨"/m/main.js"⟩ ∨
        request.buffer.file = some ⟨"/x//./y/z.js"⟩ := by
      simp only [twoSpellings, List.mem_cons, List.not_mem_nil, or_false] at hm
      rcases hm with hm | hm <;> cases hm
      · exact .inl rfl
      · exact .inr rfl
    rcases hbuffer with hb | hb <;> cases hb.symm.trans hf <;> decide
  obtain ⟨hmodules, -, -, honce⟩ := one_record_per_file {} start.tree twoSpellings habsolute
  refine ⟨habsolute, by decide +kernel, hmodules, by decide +kernel,
    honce ["a.js", "m"] ⟨5, 0⟩ fun tree ht entry he => ?_⟩
  cases List.mem_singleton.1 ht
  cases he
  rfl

end Session

end EsmCompletion
