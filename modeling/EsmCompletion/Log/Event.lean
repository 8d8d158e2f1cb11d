import EsmCompletion.ModuleFault

/-!
The events that are logged, and the line each of them is written as.
-/

namespace EsmCompletion.Log

inductive Level where
  | error
  | warn
  | info
  | debug
  | trace
  deriving DecidableEq, Repr

namespace Level

def name : Level → String
  | error => "ERROR"
  | warn => "WARN"
  | info => "INFO"
  | debug => "DEBUG"
  | trace => "TRACE"

/-- The place of a level when the most important one is first. -/
def rank : Level → Nat
  | error => 1
  | warn => 2
  | info => 3
  | debug => 4
  | trace => 5

end Level

/-- Something that happened and is worth a line in the log. -/
inductive Event where
  | scanSkipped
  | cacheHit (path : Path)
  | parsing (path : Path) (parses : Nat)
  | moduleMissing (path : Path)
  | unsavedBuffer
  | otherLanguage
  | requestFailed (fault : ModuleFault)
  | serving
  | malformedRequest (diagnostics : String)
  | unresolvedBuffer (file : Path) (fault : FileFault)
  | inputClosed (modules : Nat)
  deriving DecidableEq, Repr

namespace Event

def level : Event → Level
  | scanSkipped | cacheHit _ | parsing _ _ | otherLanguage => .debug
  | moduleMissing _ | unsavedBuffer => .warn
  | requestFailed _ | malformedRequest _ | unresolvedBuffer _ _ => .error
  | serving | inputClosed _ => .info

def target : Event → String
  | scanSkipped => "resolve_js_modules::resolver"
  | cacheHit _ | parsing _ _ | moduleMissing _ => "resolve_js_modules::cache"
  | unsavedBuffer | otherLanguage | requestFailed _ => "resolve_js_modules::completion"
  | serving | malformedRequest _ | unresolvedBuffer _ _ | inputClosed _ => "resolve_js_modules"

def message : Event → String
  | scanSkipped => "buffer has no file name, skipping import scan"
  | cacheHit _ => "module cache hit"
  | parsing _ _ => "parsing module"
  | moduleMissing _ => "File not found"
  | unsavedBuffer => "buffer has no file name, imports cannot be resolved"
  | otherLanguage => "buffer is not JavaScript source"
  | requestFailed _ => "completion request failed"
  | serving => "serving completion requests"
  | malformedRequest _ => "malformed request"
  | unresolvedBuffer _ _ => "cannot resolve buffer path"
  | inputClosed _ => "input closed"

def fields : Event → List (String × String)
  | cacheHit path | moduleMissing path => [("path", path.text)]
  | parsing path parses => [("path", path.text), ("parses", toString parses)]
  | requestFailed fault => [("error", fault.message)]
  | malformedRequest diagnostics => [("error", diagnostics)]
  | unresolvedBuffer file fault => [("error", fault.message), ("file", file.text)]
  | inputClosed modules => [("modules", toString modules)]
  | scanSkipped | unsavedBuffer | otherLanguage | serving => []

/-- The names of all that is said about an event. -/
def fieldNames (event : Event) : List String := "message" :: event.fields.map Prod.fst

def line (event : Event) : String :=
  event.level.name ++ " " ++ event.target ++ ": " ++ event.message ++
    String.join (event.fields.map fun field => " " ++ field.1 ++ "=" ++ field.2)

end Event

end EsmCompletion.Log
