import EsmCompletion.FileTree.Basic
import EsmCompletion.Imports
import EsmCompletion.Json.Reader

/-!
What a project can configure, and the file it is configured in.
-/

namespace EsmCompletion

structure Configuration where
  importLookahead : Nat := Imports.defaultLookahead
  sourceExtensions : List String := [".js", ".mjs"]
  logFile : Option Path := none
  deriving DecidableEq, Repr

inductive ConfigurationFault where
  | unreadable (fault : FileFault)
  | malformed (diagnostics : String)
  deriving DecidableEq, Repr

def ConfigurationFault.message : ConfigurationFault → String
  | unreadable fault => "Failed to read config: " ++ fault.message
  | malformed diagnostics => "Failed to parse config: " ++ diagnostics

namespace Configuration

/-- The names of the members of a configuration file, in the order in which an array lists them. -/
def memberNames : List String := ["importLookahead", "sourceExtensions", "logFile"]

/-- The value of a member, or a default if the member is missing. -/
def member {α : Type} (default : α) (read? : Json → Option α) : Option Json → Option α
  | none => some default
  | some value => read? value

/-- A log file, which may be `null`. -/
def logFile? : Json → Option (Option Path)
  | .null => some none
  | value => value.text?.map fun text => some ⟨text⟩

/-- The configuration that a JSON value writes. Missing members have their defaults. -/
def ofJson? (value : Json) : Option Configuration :=
  let defaults : Configuration := {}
  match value.fields? memberNames with
  | some [lookahead, extensions, logFile] => do
    return {
      importLookahead := ← member defaults.importLookahead Json.natural? lookahead
      sourceExtensions := ← member defaults.sourceExtensions (Json.listOf? Json.text?) extensions
      logFile := ← member defaults.logFile logFile? logFile }
  | _ => none

def parse? (text : String) : Option Configuration := (Json.parse? text).bind ofJson?

def fileIn (root : Path) : Path := root.join ⟨".resolvejsrc.json"⟩

/-- Loads the configuration of a directory. Without a configuration file it is the default one. -/
def load (tree : FileTree) (root : Path) : Except ConfigurationFault Configuration :=
  match tree.find (fileIn root) with
  | .error _ => .ok {}
  | .ok _ =>
    match tree.readText (fileIn root) with
    | .error fault => .error (.unreadable fault)
    | .ok text =>
      match parse? text with
      | none => .error (.malformed (Json.diagnostics "a configuration" text))
      | some configuration => .ok configuration

/-- Whether completions are offered in a file: its extension has to be a configured one. -/
def isSource (configuration : Configuration) (file : Path) : Bool :=
  match file.extension? with
  | none => false
  | some suffix => configuration.sourceExtensions.contains ("." ++ suffix)

/-- The log file: the configured one, or one beside the program. -/
def logPath (configuration : Configuration) (programDirectory : Path) : Path :=
  configuration.logFile.getD (programDirectory.join ⟨"log.txt"⟩)

end Configuration

end EsmCompletion
