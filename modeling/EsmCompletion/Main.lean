import EsmCompletion.CommandLine.Run
import EsmCompletion.Disk

/-!
The program: it looks up on disk what a run may read, leaves the run to the library, and puts the
outputs and the log where they belong. Requests on lines are answered one at a time, each with the
disk as it is then.
-/

namespace EsmCompletion.CommandLine

/-- What is printed when the arguments are not understood. -/
def usage : String :=
  "Usage: resolve-js-modules [--root DIRECTORY] COMMAND\n\n" ++
  "  complete FILE [--offset NUMBER]... [--stdin] [--format json|list]\n" ++
  "  exports FILE [--format json|list]\n" ++
  "  serve\n"

def readInput : IO ByteArray := do
  let input ← IO.getStdin
  let mut bytes := ByteArray.empty
  repeat
    let chunk ← input.read 65536
    if chunk.isEmpty then break
    bytes := bytes ++ chunk
  return bytes

/-- The modules that a buffer imports, which are all that its completions may read. -/
def importedPaths (configuration : Configuration) (buffer : Buffer) : List Path :=
  (Imports.ofBuffer configuration.importLookahead buffer).values

def Report.print (report : Report) : IO UInt32 := do
  IO.print report.output
  IO.eprint report.errors
  return report.code.toUInt32

/-- A run that has come as far as its open log. -/
structure Started where
  environment : Environment
  configuration : Configuration
  logPath : Path
  journal : Log.Journal

namespace Started

/-- The log file and some other paths as they are on disk. -/
def look (started : Started) (paths : List Path) : IO FileTree :=
  Disk.snapshot started.environment.tree.workingDirectory (started.logPath :: paths)

/-- Writes to disk what the log gained between two trees. -/
def saveLog (started : Started) (before after : FileTree) : IO Unit := do
  match started.journal.file with
  | some location => Disk.appendNew location before after
  | none => return

/-- Makes the log file on disk. Where the disk refuses, the run goes on without a log. -/
def makeLog (started : Started) (before after : FileTree) : IO Started := do
  try
    started.saveLog before after
    return started
  catch fault =>
    IO.eprintln ("Warning: logging to " ++ started.logPath.text ++ " disabled: " ++ toString fault)
    return { started with journal := { started.journal with file := none } }

/-- The paths that a command reads, apart from the requests on the input. -/
def paths (started : Started) : Command → IO (List Path)
  | .complete file _ fromInput _ => do
    match started.environment.tree.absolutePath file with
    | .error _ => return []
    | .ok file =>
      let tree ← started.look [file]
      match bufferText started.environment tree file fromInput with
      | .ok text => return file :: importedPaths started.configuration ⟨text, some file⟩
      | .error _ => return [file]
  | .exports file _ => return (started.environment.tree.absolutePath file).toOption.toList
  | .serve => return []

/-- Runs a command that is answered at once. -/
def runOnce (started : Started) (command : Command) : IO UInt32 := do
  let tree ← started.look (← started.paths command)
  let report := execute started.environment started.configuration started.journal tree command
  started.saveLog tree report.tree
  report.print

def writeEvents (started : Started) (events : List Log.Event) : IO Unit := do
  let tree ← started.look []
  started.saveLog tree (started.journal.writeAll tree events)

def answerLine (started : Started) (session : Session) (line : String) : IO Session := do
  let buffer? := (CompletionRequest.parse? line).bind fun request =>
    (request.buffer started.environment.tree).toOption
  let paths := buffer?.elim [] (importedPaths started.configuration)
  let tree ← started.look paths
  let outcome := respond session (started.journal.writeAll tree) line
  started.writeEvents outcome.events
  match outcome.answer with
  | some answer =>
    IO.println answer
    (← IO.getStdout).flush
  | none => pure ()
  return session.after outcome

/-- Answers the lines of the input, until it ends or one of them is no text. -/
def runServer (started : Started) : IO UInt32 := do
  let input ← IO.getStdin
  let mut session := Session.new started.configuration
  started.writeEvents [.serving]
  repeat
    let line ← try input.getLine catch _ =>
      return ← (Report.failure started.environment.tree FileFault.notText.message).print
    if line.isEmpty then break
    for bytes in inputLines line.toUTF8 do
      if let some text := decodeLine? bytes then
        session ← started.answerLine session text
  started.writeEvents [.inputClosed session.cache.size]
  return 0

end Started

/-- Loads the configuration, opens the log and runs the command. -/
def invokeOnDisk (invocation : Invocation) : IO UInt32 := do
  let workingDirectory ← Disk.workingDirectory
  let root := rootDirectory { FileTree.empty with workingDirectory } invocation.root
  let tree ← Disk.snapshot workingDirectory [Configuration.fileIn root]
  match Configuration.load tree root with
  | .error fault => (Report.failure tree fault.message).print
  | .ok configuration =>
    let programDirectory : Path := match (← IO.appPath).parent with
      | some directory => ⟨directory.toString⟩
      | none => ⟨""⟩
    let logPath := configuration.logPath programDirectory
    let tree ← Disk.snapshot workingDirectory [logPath]
    let input ← match invocation.command with
      | .complete _ _ true _ => readInput
      | _ => pure ByteArray.empty
    let environment : Environment :=
      ⟨tree, input, programDirectory, ← IO.getEnv "RESOLVE_JS_LOG", ⟨0, 0⟩⟩
    let (opened, journal, warning) := openLog environment configuration
    IO.eprint warning
    let started : Started := ⟨environment, configuration, logPath, journal⟩
    let started ← started.makeLog tree opened
    match invocation.command with
    | .serve => started.runServer
    | command => started.runOnce command

end EsmCompletion.CommandLine

open EsmCompletion.CommandLine

def main (arguments : List String) : IO UInt32 := do
  match parse? arguments with
  | none =>
    IO.eprint usage
    return 2
  | some .version =>
    IO.print versionLine
    return 0
  | some (.run invocation) => invokeOnDisk invocation
