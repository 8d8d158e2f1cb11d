import EsmCompletion.CommandLine.Arguments
import EsmCompletion.CommandLine.Serve

/-!
A whole run of the program: from arguments, files and input to the exit code, the two outputs and
the files that are left. The log file is the only file that a run changes.
-/

namespace EsmCompletion.CommandLine

/-- What a run depends on. -/
structure Environment where
  tree : FileTree
  input : ByteArray
  programDirectory : Path
  logVariable : Option String
  now : Timestamp

structure Report where
  code : Nat
  output : String
  errors : String
  tree : FileTree

namespace Report

def success (tree : FileTree) (output : String) : Report := ⟨0, output, "", tree⟩

def failure (tree : FileTree) (complaint : String) : Report :=
  ⟨1, "", "Error: " ++ complaint ++ "\n", tree⟩

end Report

def versionLine : String := "resolve-js-modules 0.1.0\n"

/-- The complaint about a relative path when the working directory is not there. -/
def directoryComplaint : String := "Failed to read current directory"

def bufferText (environment : Environment) (tree : FileTree) (file : Path) (fromInput : Bool) :
    Except String String :=
  if fromInput then
    match String.fromUTF8? environment.input with
    | none => .error FileFault.notText.message
    | some text => .ok text
  else (tree.readText file).mapError fun _ => "Failed to read " ++ file.text

/-- The places that offsets name in a buffer; without offsets, its end. -/
def placesIn (buffer : Buffer) (offsets : List Nat) : List Nat :=
  if offsets.isEmpty then [buffer.length] else offsets

/-- The suggestions at places in a buffer. -/
def complete (environment : Environment) (configuration : Configuration) (journal : Log.Journal)
    (tree : FileTree) (file : Path) (offsets : List Nat) (fromInput : Bool) (format : String) :
    Report :=
  match ListFormat.named? format with
  | none => .failure tree (ListFormat.unknown format)
  | some format =>
    match tree.absolutePath file with
    | .error _ => .failure tree directoryComplaint
    | .ok file =>
      match bufferText environment tree file fromInput with
      | .error complaint => .failure tree complaint
      | .ok text =>
        let buffer : Buffer := ⟨text, some file⟩
        let session := Session.new configuration
        let outcome := session.queryAlong (journal.writeAll tree) buffer (placesIn buffer offsets)
        .success (journal.writeAll tree outcome.events)
          (format.write (outcome.answer.getD []) ++ "\n")

def listExports (tree : FileTree) (file : Path) (format : String) : Report :=
  match ListFormat.named? format with
  | none => .failure tree (ListFormat.unknown format)
  | some format =>
    match tree.absolutePath file with
    | .error _ => .failure tree directoryComplaint
    | .ok file =>
      match exportsOfFile tree file with
      | .error fault => .failure tree fault.message
      | .ok exports => .success tree (format.write (exports.values) ++ "\n")

/-- The answers to the requests on the lines of the input. -/
def serve (environment : Environment) (configuration : Configuration) (journal : Log.Journal)
    (tree : FileTree) : Report :=
  let served := serveLines journal (inputLines environment.input) (.new configuration)
    (journal.write tree .serving)
  if served.complete then .success served.tree served.output
  else { Report.failure served.tree FileFault.notText.message with output := served.output }

def execute (environment : Environment) (configuration : Configuration) (journal : Log.Journal)
    (tree : FileTree) : Command → Report
  | .complete file offsets fromInput format =>
    complete environment configuration journal tree file offsets fromInput format
  | .exports file format => listExports tree file format
  | .serve => serve environment configuration journal tree

def logWarning (path : Path) (fault : FileFault) : String :=
  "Warning: logging to " ++ path.text ++ " disabled: " ++ fault.message ++ "\n"

/-- Opens the log of a configuration: the tree with the log file, the log, and a warning if there is
no log. -/
def openLog (environment : Environment) (configuration : Configuration) :
    FileTree × Log.Journal × String :=
  let path := configuration.logPath environment.programDirectory
  let filter := Log.Filter.ofVariable environment.logVariable
  match Log.openFile environment.tree path environment.now with
  | (tree, .ok location) => (tree, ⟨filter, some location⟩, "")
  | (tree, .error fault) => (tree, ⟨filter, none⟩, logWarning path fault)

/-- The directory of the configuration: the given one, or else the working directory, by a single dot
where its path is not known. -/
def rootDirectory (tree : FileTree) (root : Option Path) : Path :=
  root.getD (tree.workingPath.toOption.getD ⟨"."⟩)

/-- Loads the configuration, opens the log and runs the command. -/
def invoke (environment : Environment) (invocation : Invocation) : Report :=
  match Configuration.load environment.tree (rootDirectory environment.tree invocation.root) with
  | .error fault => .failure environment.tree fault.message
  | .ok configuration =>
    let (tree, journal, warning) := openLog environment configuration
    let report := execute environment configuration journal tree invocation.command
    { report with errors := warning ++ report.errors }

/-- Runs the program. Arguments that are not understood end it with code 2. -/
def run (environment : Environment) (arguments : List String) : Report :=
  match parse? arguments with
  | none => ⟨2, "", "", environment.tree⟩
  | some .version => .success environment.tree versionLine
  | some (.run invocation) => invoke environment invocation

end EsmCompletion.CommandLine
