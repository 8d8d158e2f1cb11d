import EsmCompletion.Proofs.FileTree.Lookup
import EsmCompletion.Session

/-! # Suggestions without a cache

The answers a request has when every module is read as it is at that moment. The aliases are
resolved once, and each location then contributes on its own, so there is no state to carry from
one location to the next; the first fault is the answer of the whole request. -/

namespace EsmCompletion

namespace Uncached

/-! ## One module -/

/-- The exports of the text that a module has now. A module that is not there has none. -/
def exports (tree : FileTree) (path : Path) : Except ModuleFault ExportMap :=
  match tree.find path with
  | .error .notFound => .ok .empty
  | .error fault => .error (.unknownTime path fault)
  | .ok _ =>
    match tree.readText path with
    | .error fault => .error (.unreadable path fault)
    | .ok text => (exportsOf text path.shownName).mapError .source

variable {tree : FileTree} {path : Path}

theorem exports_of_missing (h : tree.find path = .error .notFound) :
    exports tree path = .ok .empty := by
  simp [exports, h]

theorem exports_of_fault {fault : FileFault} (h : tree.find path = .error fault)
    (hf : fault ≠ .notFound) : exports tree path = .error (.unknownTime path fault) := by
  unfold exports
  rw [h]
  cases fault with
  | notFound => exact absurd rfl hf
  | _ => rfl

theorem exports_of_unreadable {entry : Entry} {fault : FileFault} (h : tree.find path = .ok entry)
    (hr : tree.readText path = .error fault) :
    exports tree path = .error (.unreadable path fault) := by
  simp [exports, h, hr]

theorem exports_of_hasText {modified : Timestamp} {text : String}
    (h : tree.HasText path modified text) :
    exports tree path = (exportsOf text path.shownName).mapError .source := by
  have hr := h.readText
  obtain ⟨bytes, hf, -⟩ := h
  simp [exports, hf, hr]

/-! ## Requests -/

/-- What the line of a location contributes to an answer. -/
def contribution (tree : FileTree) (aliases : Aliases) (line : String) :
    Except ModuleFault (List Suggestion) :=
  match DottedWord.ofLine? line with
  | none => .ok []
  | some typed =>
    match aliases.get? typed.word with
    | none => .ok (aliasSuggestions aliases typed.word)
    | some path => (exports tree path).map (exportSuggestions · typed.member)

/-- What locations contribute, one after the other, or the first fault among them. -/
def contributions (tree : FileTree) (aliases : Aliases) (buffer : Buffer) (locations : List Nat) :
    Except ModuleFault (List Suggestion) :=
  (locations.mapM fun location => contribution tree aliases (buffer.lineAt location)).map
    List.flatten

def suggestions (configuration : Configuration) (tree : FileTree) (buffer : Buffer)
    (locations : List Nat) : Except ModuleFault (List Suggestion) :=
  contributions tree (Imports.ofBuffer configuration.importLookahead buffer) buffer locations

def query (configuration : Configuration) (tree : FileTree) (buffer : Buffer)
    (locations : List Nat) : Option (List Suggestion) :=
  match buffer.file with
  | none => none
  | some file =>
    if configuration.isSource file then
      (suggestions configuration tree buffer locations).toOption
    else none

theorem contributions_cons (aliases : Aliases) (buffer : Buffer) (location : Nat)
    (rest : List Nat) :
    contributions tree aliases buffer (location :: rest) =
      (contribution tree aliases (buffer.lineAt location)).bind fun first =>
        (contributions tree aliases buffer rest).map (first ++ ·) := by
  simp only [contributions, List.mapM_cons]
  cases contribution tree aliases (buffer.lineAt location) with
  | error fault => rfl
  | ok first =>
    cases rest.mapM fun location => contribution tree aliases (buffer.lineAt location) <;> rfl

/-! ## The modules that are read -/

/-- The module that a line asks for. -/
def module? (aliases : Aliases) (line : String) : Option Path :=
  (DottedWord.ofLine? line).bind fun typed => aliases.get? typed.word

/-- The modules that are read for locations. What comes behind a fault is not read. -/
def modules (tree : FileTree) (aliases : Aliases) (buffer : Buffer) : List Nat → List Path
  | [] => []
  | location :: rest =>
    (module? aliases (buffer.lineAt location)).toList ++
      match contribution tree aliases (buffer.lineAt location) with
      | .error _ => []
      | .ok _ => modules tree aliases buffer rest

/-- The modules that are read for a request of the editor. -/
def modulesRead (configuration : Configuration) (tree : FileTree) (buffer : Buffer)
    (locations : List Nat) : List Path :=
  match buffer.file with
  | none => []
  | some file =>
    if configuration.isSource file then
      modules tree (Imports.ofBuffer configuration.importLookahead buffer) buffer locations
    else []

end Uncached

end EsmCompletion
