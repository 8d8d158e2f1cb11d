import EsmCompletion.Log.Event

/-!
The cache of parsed modules. A record is good for as long as the modification time of its file is
the one it was parsed at; records are never given up. Paths with the same components share a record.
-/

namespace EsmCompletion

/-- The exports of a module as of a modification time of its file. -/
structure ParsedModule where
  modified : Timestamp
  exports : ExportMap
  deriving DecidableEq, Repr

/-- The records of the modules that were parsed, and how often a module was parsed. -/
structure ModuleCache where
  records : List (Path × ParsedModule)
  parses : Nat
  deriving DecidableEq, Repr

/-- What an operation that may use the cache leaves behind: the cache, the answer and the events in
the order in which they happened. -/
structure Outcome (α : Type) where
  cache : ModuleCache
  answer : α
  events : List Log.Event

def Outcome.map {α β : Type} (f : α → β) (outcome : Outcome α) : Outcome β :=
  ⟨outcome.cache, f outcome.answer, outcome.events⟩

namespace ModuleCache

def empty : ModuleCache := ⟨[], 0⟩

def size (cache : ModuleCache) : Nat := cache.records.length

def isEmpty (cache : ModuleCache) : Bool := cache.records.isEmpty

/-- The record of a path with the given components. -/
def findRecord? (components : List Path.Component) :
    List (Path × ParsedModule) → Option ParsedModule
  | [] => none
  | (path, record) :: rest =>
    if path.components = components then some record else findRecord? components rest

def get? (cache : ModuleCache) (path : Path) : Option ParsedModule :=
  findRecord? path.components cache.records

/-- The records with the one of a path replaced, or added at the end. -/
def storeRecord (path : Path) (record : ParsedModule) :
    List (Path × ParsedModule) → List (Path × ParsedModule)
  | [] => [(path, record)]
  | (known, old) :: rest =>
    if known.components = path.components then (known, record) :: rest
    else (known, old) :: storeRecord path record rest

def store (cache : ModuleCache) (path : Path) (record : ParsedModule) : ModuleCache :=
  { cache with records := storeRecord path record cache.records }

/-- The answer for a file that is not there: no exports, and a line in the log. -/
def missing (cache : ModuleCache) (path : Path) : Outcome (Except ModuleFault ExportMap) :=
  ⟨cache, .ok .empty, [.moduleMissing path]⟩

/-- Parses the text of a module. The attempt counts even if it fails; only a success is stored. -/
def parse (cache : ModuleCache) (path : Path) (modified : Timestamp) (text : String) :
    Outcome (Except ModuleFault ExportMap) :=
  let counted := { cache with parses := cache.parses + 1 }
  let events := [.parsing path counted.parses]
  match exportsOf text path.shownName with
  | .error error => ⟨counted, .error (.source error), events⟩
  | .ok exports => ⟨counted.store path ⟨modified, exports⟩, .ok exports, events⟩

def reload (cache : ModuleCache) (tree : FileTree) (path : Path) (modified : Timestamp) :
    Outcome (Except ModuleFault ExportMap) :=
  match tree.readText path with
  | .error .notFound => cache.missing path
  | .error fault => ⟨cache, .error (.unreadable path fault), []⟩
  | .ok text => cache.parse path modified text

/-- The exports of a module, from its record if that is as old as the file. -/
def exports (cache : ModuleCache) (tree : FileTree) (path : Path) :
    Outcome (Except ModuleFault ExportMap) :=
  match tree.find path with
  | .error .notFound => cache.missing path
  | .error fault => ⟨cache, .error (.unknownTime path fault), []⟩
  | .ok entry =>
    match cache.get? path with
    | none => cache.reload tree path entry.modified
    | some record =>
      if record.modified = entry.modified then ⟨cache, .ok record.exports, [.cacheHit path]⟩
      else cache.reload tree path entry.modified

theorem findRecord?_storeRecord (path : Path) (record : ParsedModule)
    (components : List Path.Component) (records : List (Path × ParsedModule)) :
    findRecord? components (storeRecord path record records) =
      if path.components = components then some record else findRecord? components records := by
  induction records with
  | nil => simp [storeRecord, findRecord?]
  | cons entry rest ih =>
    obtain ⟨known, old⟩ := entry
    by_cases h : known.components = path.components
    · by_cases hc : path.components = components <;> simp [storeRecord, findRecord?, h, hc]
    · by_cases hk : known.components = components
      · subst hk
        simp [storeRecord, findRecord?, h, Ne.symm h]
      · simp [storeRecord, findRecord?, h, hk, ih]

/-- Storing a record changes what is found for the paths with the same components alone. -/
theorem get?_store (cache : ModuleCache) (path other : Path) (record : ParsedModule) :
    (cache.store path record).get? other =
      if path.components = other.components then some record else cache.get? other :=
  findRecord?_storeRecord path record other.components cache.records

end ModuleCache

end EsmCompletion
