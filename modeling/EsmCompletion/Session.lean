import EsmCompletion.Configuration
import EsmCompletion.DottedWord
import EsmCompletion.ModuleCache

/-!
An editor session: the suggestions for the places of the cursor in a buffer, with a module cache that
lives as long as the session. A request that fails is logged and has no answer. Events are logged as
they happen, so a request may find its own log among the modules, each time as it is by then.
-/

namespace EsmCompletion

/-- The files in the course of a request: what they are once some events of it were logged. -/
abbrev FileCourse := List Log.Event → FileTree

namespace FileCourse

/-- Files that no event changes. -/
def still (tree : FileTree) : FileCourse := fun _ => tree

/-- The course of the files from some events on. -/
def behind (files : FileCourse) (events : List Log.Event) : FileCourse :=
  fun more => files (events ++ more)

end FileCourse

def startsWith (text beginning : String) : Bool := beginning.toList.isPrefixOf text.toList

def aliasSuggestions (aliases : Aliases) (word : String) : List Suggestion :=
  (aliases.keys.filter (startsWith · word)).map .ofAlias

/-- The exports whose names start with what was typed. -/
def exportSuggestions (exports : ExportMap) (typed : String) : List Suggestion :=
  (exports.entries.filter fun entry => startsWith entry.1 typed).map Prod.snd

namespace ModuleCache

/-- The suggestions for what was typed: the exports of the module that the word is an alias of, or
else the aliases that the word is the beginning of. -/
def suggestFor (cache : ModuleCache) (tree : FileTree) (aliases : Aliases)
    (typed : DottedWord) : Outcome (Except ModuleFault (List Suggestion)) :=
  match aliases.get? typed.word with
  | none => ⟨cache, .ok (aliasSuggestions aliases typed.word), []⟩
  | some path =>
    (cache.exports tree path).map (·.map (exportSuggestions · typed.member))

/-- The suggestions for several places, one after the other, up to the first that fails. A place
that is not behind a word has none. Each finds the files as the events before it have left them. -/
def suggestAllAlong (aliases : Aliases) (buffer : Buffer) :
    List Nat → FileCourse → ModuleCache → Outcome (Except ModuleFault (List Suggestion))
  | [], _, cache => ⟨cache, .ok [], []⟩
  | location :: rest, files, cache =>
    match DottedWord.ofLine? (buffer.lineAt location) with
    | none => suggestAllAlong aliases buffer rest files cache
    | some typed =>
      let first := cache.suggestFor (files []) aliases typed
      match first.answer with
      | .error fault => ⟨first.cache, .error fault, first.events⟩
      | .ok suggestions =>
        let others := suggestAllAlong aliases buffer rest (files.behind first.events) first.cache
        ⟨others.cache, others.answer.map (suggestions ++ ·), first.events ++ others.events⟩

/-- The suggestions for several places while no file changes. -/
def suggestAll (tree : FileTree) (aliases : Aliases) (buffer : Buffer) (locations : List Nat)
    (cache : ModuleCache) : Outcome (Except ModuleFault (List Suggestion)) :=
  suggestAllAlong aliases buffer locations (.still tree) cache

theorem suggestAll_nil (tree : FileTree) (aliases : Aliases) (buffer : Buffer)
    (cache : ModuleCache) : suggestAll tree aliases buffer [] cache = ⟨cache, .ok [], []⟩ :=
  rfl

theorem suggestAll_cons (tree : FileTree) (aliases : Aliases) (buffer : Buffer) (location : Nat)
    (rest : List Nat) (cache : ModuleCache) :
    suggestAll tree aliases buffer (location :: rest) cache =
      match DottedWord.ofLine? (buffer.lineAt location) with
      | none => suggestAll tree aliases buffer rest cache
      | some typed =>
        let first := cache.suggestFor tree aliases typed
        match first.answer with
        | .error fault => ⟨first.cache, .error fault, first.events⟩
        | .ok suggestions =>
          let others := suggestAll tree aliases buffer rest first.cache
          ⟨others.cache, others.answer.map (suggestions ++ ·), first.events ++ others.events⟩ := by
  rw [suggestAll, suggestAllAlong]
  cases DottedWord.ofLine? (buffer.lineAt location) <;> rfl

end ModuleCache

/-- A configuration and the modules that were parsed under it. -/
structure Session where
  configuration : Configuration
  cache : ModuleCache

namespace Session

def new (configuration : Configuration) : Session := ⟨configuration, .empty⟩

def scanEvents (buffer : Buffer) : List Log.Event :=
  if buffer.file.isNone then [.scanSkipped] else []

def aliases (session : Session) (buffer : Buffer) : Aliases :=
  Imports.ofBuffer session.configuration.importLookahead buffer

/-- The suggestions for places in a buffer, or the first fault among them. -/
def suggestionsAlong (session : Session) (files : FileCourse) (buffer : Buffer)
    (locations : List Nat) : Outcome (Except ModuleFault (List Suggestion)) :=
  let aliases := session.aliases buffer
  let scanned := scanEvents buffer
  let outcome :=
    ModuleCache.suggestAllAlong aliases buffer locations (files.behind scanned) session.cache
  { outcome with events := scanned ++ outcome.events }

/-- Answers a request of the editor. There is no answer for a buffer that was never saved, for one
that is not in a source file, and after a fault. -/
def queryAlong (session : Session) (files : FileCourse) (buffer : Buffer) (locations : List Nat) :
    Outcome (Option (List Suggestion)) :=
  match buffer.file with
  | none => ⟨session.cache, none, [.unsavedBuffer]⟩
  | some file =>
    if session.configuration.isSource file then
      let outcome := session.suggestionsAlong files buffer locations
      match outcome.answer with
      | .ok suggestions => ⟨outcome.cache, some suggestions, outcome.events⟩
      | .error fault => ⟨outcome.cache, none, outcome.events ++ [.requestFailed fault]⟩
    else ⟨session.cache, none, [.otherLanguage]⟩

/-- The suggestions for places in a buffer while no file changes. -/
def suggestions (session : Session) (tree : FileTree) (buffer : Buffer) (locations : List Nat) :
    Outcome (Except ModuleFault (List Suggestion)) :=
  session.suggestionsAlong (.still tree) buffer locations

/-- Answers a request of the editor while no file changes. -/
def query (session : Session) (tree : FileTree) (buffer : Buffer) (locations : List Nat) :
    Outcome (Option (List Suggestion)) :=
  session.queryAlong (.still tree) buffer locations

theorem suggestions_eq (session : Session) (tree : FileTree) (buffer : Buffer)
    (locations : List Nat) :
    session.suggestions tree buffer locations =
      let outcome :=
        ModuleCache.suggestAll tree (session.aliases buffer) buffer locations session.cache
      { outcome with events := scanEvents buffer ++ outcome.events } :=
  rfl

theorem query_eq (session : Session) (tree : FileTree) (buffer : Buffer) (locations : List Nat) :
    session.query tree buffer locations =
      match buffer.file with
      | none => ⟨session.cache, none, [.unsavedBuffer]⟩
      | some file =>
        if session.configuration.isSource file then
          let outcome := session.suggestions tree buffer locations
          match outcome.answer with
          | .ok suggestions => ⟨outcome.cache, some suggestions, outcome.events⟩
          | .error fault => ⟨outcome.cache, none, outcome.events ++ [.requestFailed fault]⟩
        else ⟨session.cache, none, [.otherLanguage]⟩ :=
  rfl

def after {α : Type} (session : Session) (outcome : Outcome α) : Session :=
  { session with cache := outcome.cache }

end Session

end EsmCompletion
