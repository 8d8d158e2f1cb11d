import EsmCompletion.ListFormat
import EsmCompletion.Log.Journal
import EsmCompletion.Session

/-!
Requests on lines of input: each is a JSON record with a file, its text and the places of the
cursor, and each is answered on a line of its own.
-/

namespace EsmCompletion.CommandLine

structure CompletionRequest where
  file : Path
  text : String
  locations : List Nat
  deriving DecidableEq, Repr

namespace CompletionRequest

/-- The names of the members of a request, in the order in which an array lists them. -/
def memberNames : List String := ["file", "text", "locations"]

/-- The request that a JSON value writes. No member may be missing. -/
def ofJson? (value : Json) : Option CompletionRequest :=
  match value.fields? memberNames with
  | some [some file, some text, some locations] => do
    return ⟨⟨← file.text?⟩, ← text.text?, ← Json.listOf? Json.natural? locations⟩
  | _ => none

def parse? (line : String) : Option CompletionRequest := (Json.parse? line).bind ofJson?

/-- The buffer of a request. A relative path names none when the working directory is not there. -/
def buffer (request : CompletionRequest) (tree : FileTree) : Except FileFault Buffer :=
  (tree.absolutePath request.file).map fun file => ⟨request.text, some file⟩

/-- Answers a request. -/
def outcome (request : CompletionRequest) (session : Session) (files : FileCourse) :
    Outcome (Option (List Suggestion)) :=
  match request.buffer (files []) with
  | .error fault => ⟨session.cache, none, [.unresolvedBuffer request.file fault]⟩
  | .ok buffer => session.queryAlong files buffer request.locations

end CompletionRequest

/-- The answer to a request as a line without its end. -/
def writeAnswer : Option (List Suggestion) → String
  | none => "null"
  | some suggestions => ListFormat.writeJson suggestions

def isBlank (line : String) : Bool := line.toList.all Unicode.isWhiteSpace

/-- Answers a line of input; a blank one has no answer. -/
def respond (session : Session) (files : FileCourse) (line : String) : Outcome (Option String) :=
  if isBlank line then ⟨session.cache, none, []⟩
  else
    match CompletionRequest.parse? line with
    | none =>
      let diagnostics := Json.diagnostics "a completion request" line
      ⟨session.cache, some (writeAnswer none), [.malformedRequest diagnostics]⟩
    | some request =>
      (request.outcome session files).map fun answer => some (writeAnswer answer)

/-- Takes away the carriage return at the end of a line. -/
def dropReturn (line : List UInt8) : List UInt8 :=
  if line.getLast? = some 13 then line.dropLast else line

/-- The lines of an input: all that end with a line feed, without that and a carriage return before
it, and what is left behind the last one, if anything. -/
def inputLines (input : ByteArray) : List (List UInt8) :=
  let pieces := input.data.toList.splitOn 10
  pieces.dropLast.map dropReturn ++ (pieces.getLast?.toList.filter (· ≠ []))

def decodeLine? (line : List UInt8) : Option String := String.fromUTF8? ⟨line.toArray⟩

/-- What is left when the input ends, or when a line of it is no text: the tree with its log, the
answers with their line ends, and whether all lines were read. -/
structure Served where
  tree : FileTree
  output : String
  complete : Bool

def serveLines (journal : Log.Journal) : List (List UInt8) → Session → FileTree → Served
  | [], session, tree =>
    ⟨journal.write tree (.inputClosed session.cache.size), "", true⟩
  | line :: rest, session, tree =>
    match decodeLine? line with
    | none => ⟨tree, "", false⟩
    | some text =>
      let outcome := respond session (journal.writeAll tree) text
      let served := serveLines journal rest (session.after outcome)
        (journal.writeAll tree outcome.events)
      { served with output := (outcome.answer.elim "" (· ++ "\n")) ++ served.output }

end EsmCompletion.CommandLine
